import Mikanos.Transition.Run
import Mikanos.Memory.Bytes
import Mikanos.Task.Message
import Mikanos.Terminal.Pipe
import Mikanos.Terminal.PipeCorrectness
import Mikanos.Error
import Mikanos.Task.Manager
import Mikanos.Task.Invariant
import Mikanos.Task.Scheduler
import Mikanos.Terminal.Pipeline
import Mikanos.Terminal.PipelineSafety
import Mikanos.Memory.Frames
import Mikanos.Paging.Entry
import Mikanos.Paging.Tables
import Mikanos.Paging.Fault
import Mikanos.Paging.Ownership
import Mikanos.Paging.Copy
import Mikanos.Paging.CopyComplete
import Mikanos.Chain.Linked
import Mikanos.Fat.Directory
import Mikanos.Fat.File
import Mikanos.Fat.Layout
import Mikanos.Fat.Extension
import Mikanos.Fat.Writing
import Mikanos.Xhci.Ring
import Mikanos.Xhci.RingCorrectness
import Mikanos.Xhci.PortConfig
import Mikanos.Xhci.PortSafety
import Mikanos.Loader.Elf
import Mikanos.Loader.Confinement
import Mikanos.Loader.Launch
import Mikanos.Paging.Growth
import Mikanos.Loader.FailedLaunch
import Mikanos.Fat.Names
import Mikanos.Fat.Slots
import Mikanos.Fat.Tree
import Mikanos.Fat.Creation
import Mikanos.Loader.Image
import Mikanos.Screen.Layers
import Mikanos.Screen.Stacking
import Mikanos.Timer.Firing
import Mikanos.Usb.ArrayMap
import Mikanos.Usb.Waiters
import Mikanos.Xhci.Answers
import Mikanos.Xhci.CommandFailure
import Mikanos.Xhci.EventRing
import Mikanos.Task.Effects
import Mikanos.Task.Delivery
import Mikanos.Task.RoundRobin
import Mikanos.Fat.Appending
import Mikanos.Fat.FullVolume
import Mikanos.Fat.Isolation
import Mikanos.Fat.Misfits
import Mikanos.Fat.RoundTrip
import Mikanos.Memory.BootMap
import Mikanos.Fat.ClusterChains
import Mikanos.Fat.Columns
import Mikanos.Fat.Listing
import Mikanos.Fat.PathWalk
import Mikanos.Fat.PrintedNames
import Mikanos.Fat.Rereading
import Mikanos.Fat.Slices
import Mikanos.Loader.PageCache
import Mikanos.Memory.Bounds
import Mikanos.Memory.Spans
import Mikanos.Memory.Statistics
import Mikanos.Numeric.Double
import Mikanos.Screen.Drawing
import Mikanos.Syscall.Accesses
import Mikanos.Syscall.Confinement
import Mikanos.Terminal.Blinking
import Mikanos.Usb.Pool
import Mikanos.Fat.FreshFiles
import Mikanos.Screen.LiveLayers
import Mikanos.Memory.CString
import Mikanos.Memory.Reading
import Mikanos.Terminal.ArgVector
import Mikanos.Terminal.CommandLine
import Mikanos.Terminal.CommandPointers
import Mikanos.Terminal.LineEditor
import Mikanos.Usb.Descriptor
import Mikanos.Usb.DescriptorSafety
import Mikanos.Usb.Exhaustion
import Mikanos.Usb.InterfaceSelection
import Mikanos.Usb.Keyboard
import Mikanos.Memory.Copying
import Mikanos.Screen.Console
import Mikanos.Screen.Heights
import Mikanos.Screen.MouseButtons
import Mikanos.Screen.Raster
import Mikanos.Screen.RasterCopy
import Mikanos.Screen.RasterMove
import Mikanos.Screen.WindowStores
import Mikanos.Terminal.Cat
import Mikanos.Terminal.Editing
import Mikanos.Terminal.Windowless
import Mikanos.Asm.Context
import Mikanos.Asm.Interrupting
import Mikanos.Asm.Restoring
import Mikanos.Asm.Returning
import Mikanos.Asm.RoundTrip
import Mikanos.Loader.Heap
import Mikanos.Memory.BitField
import Mikanos.Pci.Enumeration
import Mikanos.Screen.MissingWindows
import Mikanos.Timer.PmTimer
import Mikanos.Usb.MapLaw
import Mikanos.Xhci.PointerFields
import Mikanos.Asm.AppLife
import Mikanos.Painting.Sheets
import Mikanos.Screen.Canvas
import Mikanos.Fat.Tail
import Mikanos.Fat.Writers
import Mikanos.Usb.Enumeration
import Mikanos.Usb.Handlers
import Mikanos.Usb.Polling
import Mikanos.Usb.Reaching
import Mikanos.Syscall.EventChannel
import Mikanos.Terminal.Encoding
import Mikanos.Screen.Strokes
import Mikanos.Terminal.Paper
import Mikanos.Terminal.Pixels
import Mikanos.Asm.Footprint
import Mikanos.Asm.TimeSharing
