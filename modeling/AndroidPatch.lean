import AndroidPatch.Lang.Patchwork
import AndroidPatch.Lang.Outcome
import AndroidPatch.Lang.Execution
import AndroidPatch.Lang.Activation
import AndroidPatch.Lang.Reentrancy
import AndroidPatch.Lang.Order
import AndroidPatch.Lang.Isolation
import AndroidPatch.Lang.Ids
import AndroidPatch.Lang.Registrations
import AndroidPatch.Logcat.Hooking
import AndroidPatch.Logcat.Ledger
import AndroidPatch.Logcat.Loops
import AndroidPatch.Logcat.Agreement
import AndroidPatch.Logcat.Ignoring
import AndroidPatch.Library.Monitor
import AndroidPatch.Logcat.Synchronized
import AndroidPatch.Lang.Simulation
import AndroidPatch.Logcat.Logging
import AndroidPatch.Logcat.Nesting
import AndroidPatch.Lang.Failure
import AndroidPatch.Formats.Formatter
import AndroidPatch.Formats.FormatEntry
import AndroidPatch.Formats.Termination
import AndroidPatch.Formats.Markers
import AndroidPatch.Formats.MapToArray2
import AndroidPatch.Formats.Equality
import AndroidPatch.Formats.CyclicLists
import AndroidPatch.Formats.Values
import AndroidPatch.Formats.Rendering
import AndroidPatch.Logcat.Abbreviation
import AndroidPatch.Library.LinkedMap
import AndroidPatch.Reflect.ClassWrapper
import AndroidPatch.Reflect.Getter
import AndroidPatch.Library.Worklist
import AndroidPatch.Reflect.Hierarchy
import AndroidPatch.Reflect.MemberLookup
import AndroidPatch.Killer.SharedObjectMaps
import AndroidPatch.Lang.PatchLoaders
import AndroidPatch.Library.Intervals
import AndroidPatch.Killer.DumpSharedObject
import AndroidPatch.Formats.Registration
import AndroidPatch.Formats.Verbatim
import AndroidPatch.Killer.CopyExecutable
import AndroidPatch.Library.TimSort.Sort
import AndroidPatch.Lang.Sorting
import AndroidPatch.Library.ByteMemory
import AndroidPatch.Library.A64
import AndroidPatch.Dobby.Arm64.Assembler
import AndroidPatch.Dobby.Arm64.Relocation
import AndroidPatch.Dobby.Arm64.Emitted
import AndroidPatch.Dobby.Arm64.Running
import AndroidPatch.Dobby.Arm64.Layout
import AndroidPatch.Dobby.Arm64.Preservation
import AndroidPatch.Dobby.Arm64.Trampoline
import AndroidPatch.Dobby.MemoryArena
import AndroidPatch.Library.Ring
import AndroidPatch.Dobby.Interceptor
import AndroidPatch.Dobby.CodePatch
import AndroidPatch.Dobby.Arm64.Hooking
import AndroidPatch.Dobby.Arm64.Hooked
import AndroidPatch.Dobby.Arm64.Rehooked
import AndroidPatch.Library.Transactions
import AndroidPatch.Logcat.Serialized
import AndroidPatch.Library.IA32
import AndroidPatch.Dobby.X86.Relocation
import AndroidPatch.Library.RelyGuarantee
import AndroidPatch.Logcat.Instance
import AndroidPatch.Formats.Publication
