/-
The codec over concrete text formats, and the event of the codec's own test.
-/
import TransferDashboard.JsonCodex
import TransferDashboard.Lib.IsoText
import TransferDashboard.Lib.JsonText

namespace TransferDashboard

open Joda Json

def utc : DateTimeZone := ⟨"UTC"⟩
def losAngeles : DateTimeZone := ⟨"America/Los_Angeles"⟩

/-- Standard time, all year. -/
def standardOffsets : Iso.Offsets where
  minutes zone := if zone = losAngeles then -480 else 0
  bound zone := by split <;> decide

def textLibs : Libs := ⟨jsonText, isoText standardOffsets⟩

theorem textLibs_documented : textLibs.Documented := ⟨jsonText_documented, isoText_documented standardOffsets⟩

namespace JsonCodexSpec

/-- 2017-01-01T13:00:00.000 in Los Angeles. -/
def event : Event where
  eventId := ⟨"1"⟩
  partner := ⟨"A"⟩
  timestamp := ⟨⟨1483304400000, losAngeles⟩⟩
  action := .send
  size := 8192
  seconds := 1
  ackState := none
  receiptFor := none

example : JsonCodex.eventToJson textLibs event = "\x7b\"eventId\":\x7b\"id\":\"1\"\x7d," ++
    "\"partner\":\x7b\"name\":\"A\"\x7d,\"timestamp\":\"2017-01-01T13:00:00.000-08:00\"," ++
    "\"action\":\"Send\",\"size\":8192,\"seconds\":1\x7d" := by decide +kernel

end JsonCodexSpec

end TransferDashboard
