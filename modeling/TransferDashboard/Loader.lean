/-
Loading events into the topic (`model/Loader.scala`).
-/
import TransferDashboard.JsonCodex

namespace TransferDashboard

/-- `KafkaProducerRecord`. -/
structure ProducerRecord where
  topic : String
  key : String
  value : String
  deriving DecidableEq

namespace Loader

/-- `kafka_loader.topic`. -/
def topic : String := "loader.test"

/-- The record `loadEvent` sends. -/
def loadEvent (L : Libs) (event : Event) : ProducerRecord :=
  ⟨topic, event.partner.toString, JsonCodex.eventToJson L event⟩

end Loader

end TransferDashboard
