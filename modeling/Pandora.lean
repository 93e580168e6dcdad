import Pandora.Lib.Run
import Pandora.Lib.Word
import Pandora.Lib.Linked
import Pandora.Lib.Rotation
import Pandora.Lib.ByteMem
import Pandora.Lib.CString
import Pandora.Lib.Traced
import Pandora.Lib.Decimal
import Pandora.Lib.X86
import Pandora.Lib.Split
import Pandora.Lib.Ring
import Pandora.Heap.Defs
import Pandora.Heap.Search
import Pandora.Heap.Chain
import Pandora.Heap.Alloc
import Pandora.Heap.Client
import Pandora.Heap.Fit
import Pandora.Heap.Table
import Pandora.Heap.Kheap
import Pandora.Heap.Held
import Pandora.Heap.Ledger
import Pandora.Heap.Reached
import Pandora.Heap.Pages
import Pandora.Paging.Defs
import Pandora.Paging.Table
import Pandora.Paging.Map
import Pandora.Paging.Create
import Pandora.Paging.New
import Pandora.Paging.Refine
import Pandora.Paging.Teardown
import Pandora.Paging.Agree
import Pandora.Disk.Stream
import Pandora.Fat.Defs
import Pandora.Fat.Chain
import Pandora.Fat.Links
import Pandora.Fat.Fread
import Pandora.Fat.Seek
import Pandora.Fs.State
import Pandora.Fat.Directory
import Pandora.Fat.Names
import Pandora.Fat.Filename
import Pandora.Fat.Lookup
import Pandora.Fat.Loaded
import Pandora.Fat.Counted
import Pandora.Fat.Sectors
import Pandora.Fs.Path
import Pandora.Fat.Open
import Pandora.Fs.File
import Pandora.Fs.Leak
import Pandora.Fat.Owned
import Pandora.Fat.Solid
import Pandora.Fat.Unloaded
import Pandora.Fs.Parsed
import Pandora.Fs.Rendered
import Pandora.Fs.Resolve
import Pandora.Fs.Fail
import Pandora.Fs.OpenDirectory
import Pandora.Fs.Table
import Pandora.Task.Queue
import Pandora.Task.List
import Pandora.Task.Chain
import Pandora.Task.Rotation
import Pandora.Task.Switch
import Pandora.Process.State
import Pandora.Process.Elf
import Pandora.Process.Task
import Pandora.Process.Defs
import Pandora.Process.Scope
import Pandora.Process.Segments
import Pandora.Process.Bounds
import Pandora.Process.Ghosts
import Pandora.Process.Starved
import Pandora.Process.Frame
import Pandora.Process.Malloc
import Pandora.Process.Denied
import Pandora.Process.Isr80h
import Pandora.Process.CopyString
import Pandora.Process.Path
import Pandora.Process.Exit
import Pandora.Process.Load
import Pandora.Process.Image
import Pandora.Process.Extent
import Pandora.Process.Arguments
import Pandora.Process.Cycle
import Pandora.Process.Program
import Pandora.Process.Live
import Pandora.Process.Served
import Pandora.Process.Holdings
import Pandora.Process.Release
import Pandora.Process.Outcome
import Pandora.Process.Faultless
import Pandora.Process.World
import Pandora.Process.Aliases
import Pandora.Process.Failure
import Pandora.Process.Calls
import Pandora.Process.Account
import Pandora.Process.Table
import Pandora.Process.Writable
import Pandora.Process.Isolation
import Pandora.Process.Copied
import Pandora.Process.Handlers
import Pandora.Process.Scheduled
import Pandora.Stdlib.Strtok
import Pandora.Stdlib.Tokens
import Pandora.Stdlib.Itoa
import Pandora.Stdlib.Command
import Pandora.Stdlib.Run
import Pandora.Stdlib.History
import Pandora.Stdlib.Refused
import Pandora.Stdlib.Readline
import Pandora.Keyboard.Buffer
import Pandora.Keyboard.Driver
import Pandora.Idt.Defs
import Pandora.Idt.Tables
import Pandora.Idt.Calls
import Pandora.Idt.Machine
import Pandora.Idt.Turns
import Pandora.Idt.Boot
import Pandora.Terminal.Screen
import Pandora.Terminal.Backspace
import Pandora.Gdt.Encode
