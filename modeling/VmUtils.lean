import VmUtils.Lib.TextStream
import VmUtils.Lib.LineLoop
import VmUtils.Lib.StoreEffects
import VmUtils.Region
import VmUtils.LinuxQuery
import VmUtils.MapsListing
import VmUtils.MapsScan
import VmUtils.Lib.Intervals
import VmUtils.QueryResult
import VmUtils.Lib.Pages
import VmUtils.QueryRangeResult
import VmUtils.QueryRangeProperties
import VmUtils.Lib.Overlay
import VmUtils.Lib.Runs
import VmUtils.Protect
import VmUtils.ProtectionGuard
import VmUtils.GuardCalls
import VmUtils.GuardDestructor
import VmUtils.GuardReplay
import VmUtils.RangeGuard
import VmUtils.GuardRestoration
import VmUtils.GuardNesting
import VmUtils.GuardFailure
import VmUtils.OsxQuery
import VmUtils.WindowsQuery
import VmUtils.RecordScan
import VmUtils.UninitLocals
import VmUtils.AddressCells
import VmUtils.Lib.Walk
import VmUtils.QueryRangeCoverage
import VmUtils.RegionRange
import VmUtils.QueryIterator
import VmUtils.AddressCastBytes
import VmUtils.LinuxQueryBytes
import VmUtils.WindowsQueryBytes
import VmUtils.NarrowQuery
import VmUtils.StaleErrorCode
import VmUtils.QueryRangeErrorCode
import VmUtils.FillRegionGaps
import VmUtils.HalfOpenRange
import VmUtils.SharedFlag
import VmUtils.IteratorRange
import VmUtils.QueryRangeTermination
import VmUtils.ProtectPages
import VmUtils.GuardEntries
import VmUtils.RepeatedQueryGuard
import VmUtils.GuardSystems
import VmUtils.Lib.ScopeEscapes
import VmUtils.GuardProgram
import VmUtils.ProtectQuery
import VmUtils.IteratorLayout
import VmUtils.Lib.HushedStream
import VmUtils.MapsOverloads
import VmUtils.RangeRounds
import VmUtils.RangeAnswers
import VmUtils.AccessFlags
import VmUtils.FlagsThroughProtect
import VmUtils.GapFillerRepeated
import VmUtils.AddressSpaceTop
import VmUtils.Wow64QueryRange
import VmUtils.QueryRangeBytes
import VmUtils.GuardedQueries
