import CacheSim.Words
import CacheSim.Numerals
import CacheSim.JsonText
import CacheSim.TraceReader
import CacheSim.TraceFormat
import CacheSim.TraceWriter
import CacheSim.Config
import CacheSim.Geometry
import CacheSim.AddressFields
import CacheSim.Service
import CacheSim.Stamps
import CacheSim.Recency
import CacheSim.Replacement
import CacheSim.RefFACache
import CacheSim.Memory
import CacheSim.Cache
import CacheSim.CacheStep
import CacheSim.Tally
import CacheSim.Hierarchy
import CacheSim.Validation
import CacheSim.Report
import CacheSim.CommandLine
import CacheSim.Configuration
import CacheSim.Structure
import CacheSim.Traced
import CacheSim.Durability
import CacheSim.Transfer
import CacheSim.Classification
import CacheSim.LRUStack
import CacheSim.ColdMisses
import CacheSim.Inclusion
import CacheSim.FullyAssociative
import CacheSim.Traffic
import CacheSim.Conservation
import CacheSim.Frames
import CacheSim.WritePolicies
import CacheSim.Latency
import CacheSim.AddressShift
import CacheSim.Relocation
import CacheSim.Placement
import CacheSim.Isolation
import CacheSim.Divergence
import CacheSim.WriteAround
import CacheSim.RecencyList
import CacheSim.ListRefinement
import CacheSim.FIFOQueue
import CacheSim.WriteBacks
import CacheSim.SetIndependence
import CacheSim.Paging
import CacheSim.Competitive
import CacheSim.DirectMapped
import CacheSim.Filtering
import CacheSim.Sweep
import CacheSim.SweepLaw
import CacheSim.TraceFile
import CacheSim.Program
import CacheSim.Stride
import CacheSim.Tracegen
import CacheSim.ScanLaw
import CacheSim.ModifyRecords
import CacheSim.Distances
import CacheSim.StackDistance
import CacheSim.LastLevel
import CacheSim.Matmul
import CacheSim.LastWrite
import CacheSim.OptionOrder
import CacheSim.JsonDocument
import CacheSim.JsonRefusal
import CacheSim.ReportReading
import CacheSim.GlobalRates
import CacheSim.Experiment
import CacheSim.GenTrace
