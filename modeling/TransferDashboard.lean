import TransferDashboard.AppGenSample
import TransferDashboard.DBDriverFacts
import TransferDashboard.EventKeys
import TransferDashboard.EventStamps
import TransferDashboard.GeneratorFeed
import TransferDashboard.GeneratorOrder
import TransferDashboard.GeneratorReceipts
import TransferDashboard.GeneratorTypes
import TransferDashboard.GraphBacklog
import TransferDashboard.GraphDrivers
import TransferDashboard.GraphEnds
import TransferDashboard.GraphFeed
import TransferDashboard.GraphHalts
import TransferDashboard.GraphOrder
import TransferDashboard.GraphProgress
import TransferDashboard.GraphReplay
import TransferDashboard.GraphRows
import TransferDashboard.GraphSafety
import TransferDashboard.GraphTotals
import TransferDashboard.GraphZones
import TransferDashboard.InfluxDBDriverErrors
import TransferDashboard.InfluxDBDriverFacts
import TransferDashboard.JsonCodexRoundTrip
import TransferDashboard.JsonCodexTexts
import TransferDashboard.MetricsFacts
import TransferDashboard.ProcessMessage
