import MarrowOS.Lib.Runs
import MarrowOS.Lib.Links
import MarrowOS.Lib.Extents
import MarrowOS.Disk.StreamerTheorems
import MarrowOS.Fs.ChunkedReads
import MarrowOS.Fs.PathResolution
import MarrowOS.Fs.CloseDiscipline
import MarrowOS.Task.TaskListTheorems
import MarrowOS.Memory.HeapSoundness
import MarrowOS.Task.UserHeap
import MarrowOS.Console.TerminalTheorems
import MarrowOS.Console.KeyboardTheorems
import MarrowOS.Task.RoundRobin
import MarrowOS.Task.ContextSwitchTheorems
import MarrowOS.Isr80h.ArgumentsTheorems
import MarrowOS.Memory.HeapOwnership
import MarrowOS.Memory.PageTables
import MarrowOS.Task.ExitRotation
import MarrowOS.Memory.NewAddressSpace
import MarrowOS.Loader.ElfLoaderTheorems
import MarrowOS.Task.LoadingTheorems
import MarrowOS.Task.Mappings
import MarrowOS.Task.ProcessTable
import MarrowOS.Memory.HeapAllocation
import MarrowOS.Memory.FreshAddressSpace
import MarrowOS.Memory.RefusingAllocator
import MarrowOS.Task.Allocations
import MarrowOS.Loader.OneHeaderFiles
import MarrowOS.Task.LoadingProgress
import MarrowOS.Task.Termination
import MarrowOS.Task.FailedLoads
import MarrowOS.Task.OutOfMemory
import MarrowOS.Task.StringCopyTheorems
import MarrowOS.Task.KernelPages
import MarrowOS.Task.WriteIsolation
import MarrowOS.Fs.PathParser
import MarrowOS.Fs.FatFiles
import MarrowOS.Disk.StreamReads
import MarrowOS.Loader.ElfBounds
import MarrowOS.Lib.Footprint
import MarrowOS.Loader.ElfReads
import MarrowOS.Task.SegmentMapping
import MarrowOS.Task.SegmentTails
import MarrowOS.Isr80h.ProgramNames
import MarrowOS.Lib.Walks
import MarrowOS.Task.Arguments
import MarrowOS.Task.ArgumentWalk
import MarrowOS.Task.ArgumentBlocks
import MarrowOS.Task.ArgumentCopies
import MarrowOS.Task.ArgumentTheorems
import MarrowOS.Isr80h.SystemCommand
import MarrowOS.Isr80h.SystemCommandTheorems
import MarrowOS.Lib.Chains
import MarrowOS.Fs.ClusterChains
import MarrowOS.Fs.SeekPositions
import MarrowOS.Fs.FatFaults
import MarrowOS.Fs.ItemTags
import MarrowOS.Fs.ReadBounds
import MarrowOS.Fs.DirectoryScan
import MarrowOS.Fs.ClusterPositions
import MarrowOS.Fs.DirectoryLoads
import MarrowOS.Fs.DirectoryContents
import MarrowOS.Fs.ItemBlocks
import MarrowOS.Fs.FailedOpens
import MarrowOS.Fs.Fat16Mount
import MarrowOS.Fs.ClusterDivisions
import MarrowOS.Memory.HeldBlocks
import MarrowOS.Fs.OpenLeaks
import MarrowOS.Memory.SingleBlocks
import MarrowOS.Fs.PathParts
import MarrowOS.Fs.PathRoundTrips
import MarrowOS.Fs.PathRefusals
import MarrowOS.Lib.MemStrings
import MarrowOS.Gdt.Gdt
import MarrowOS.Gdt.GdtTheorems
import MarrowOS.Stdlib.Integers
import MarrowOS.Stdlib.SoftwareDivision
import MarrowOS.Stdlib.IntegersTheorems
import MarrowOS.Stdlib.Numerals
import MarrowOS.Stdlib.Printf
import MarrowOS.Stdlib.PrintfTheorems
import MarrowOS.Lib.Tokens
import MarrowOS.Stdlib.Strtok
import MarrowOS.Stdlib.StrtokTheorems
import MarrowOS.Stdlib.CommandLine
import MarrowOS.Stdlib.CommandLineTheorems
import MarrowOS.Stdlib.CommandRuns
import MarrowOS.Stdlib.Readline
import MarrowOS.Stdlib.ReadlineTheorems
import MarrowOS.StringComparison
import MarrowOS.Fs.ShortNames
import MarrowOS.Memory.TableOwnership
import MarrowOS.Memory.HeapCalls
import MarrowOS.Loader.RepeatedRelease
import MarrowOS.Disk.Ata
import MarrowOS.Disk.AtaTheorems
import MarrowOS.Idt.Idt
import MarrowOS.Idt.IdtTheorems
import MarrowOS.Task.Traps
import MarrowOS.Task.TrapsTheorems
import MarrowOS.Console.Classic
import MarrowOS.Console.ClassicTheorems
import MarrowOS.Stdlib.FormatLanguage
import MarrowOS.Stdlib.PrintfMeaning
import MarrowOS.Lib.Page
import MarrowOS.Console.TerminalPage
import MarrowOS.Task.ProgramImage
import MarrowOS.Stdlib.Shell
import MarrowOS.Stdlib.ShellTheorems
import MarrowOS.Isr80h.Io
import MarrowOS.Stdlib.SystemCalls
import MarrowOS.Stdlib.UserStack
import MarrowOS.Stdlib.SystemCallTheorems
