import AtherosCsi.Theorems.Unpackers
import AtherosCsi.Theorems.UnpackBits
import AtherosCsi.Theorems.StatusFields
import AtherosCsi.Theorems.TwoDecoders
import AtherosCsi.Theorems.Range
import AtherosCsi.Theorems.LogGrowth
import AtherosCsi.Theorems.TruncatedLog
import AtherosCsi.Theorems.LogRoundTrip
import AtherosCsi.Theorems.FrameOffsets
import AtherosCsi.Theorems.QueryText
import AtherosCsi.Theorems.QueryBuffer
import AtherosCsi.Theorems.Regions
import AtherosCsi.Theorems.SaveCsi
import AtherosCsi.Theorems.TwoReceivers
import AtherosCsi.Theorems.Outage
import AtherosCsi.Theorems.Connection
import AtherosCsi.Theorems.SendData
import AtherosCsi.Theorems.CsiStreams
import AtherosCsi.Theorems.Traces
import AtherosCsi.Theorems.TimeBuckets
import AtherosCsi.Theorems.FftMean
import AtherosCsi.Theorems.Startup
import AtherosCsi.Theorems.Fleet
import AtherosCsi.Theorems.Overtaking
import AtherosCsi.Theorems.Measurements
import AtherosCsi.ReadBfee
import AtherosCsi.ReadBfFile
import AtherosCsi.Theorems.Bfee
import AtherosCsi.Theorems.BfFile
import AtherosCsi.Theorems.Antennas
import AtherosCsi.Resources
import AtherosCsi.Theorems.Resources
import AtherosCsi.RecvScript
import AtherosCsi.Theorems.Captures
import AtherosCsi.Theorems.LogFrames
import AtherosCsi.Theorems.SendScript
