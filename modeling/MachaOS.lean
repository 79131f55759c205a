import MachaOS.PageRights
import MachaOS.Fat.Excess
import MachaOS.Fat.Copies
import MachaOS.Frames
import MachaOS.Scheduling
import MachaOS.Streams
import MachaOS.References
import MachaOS.Wayland.Leaving
import MachaOS.Wayland.Rendering
import MachaOS.Listeners
import MachaOS.IdentityMap
import MachaOS.KernelPages
import MachaOS.Desktop.Cursor
import MachaOS.Desktop.Focus
import MachaOS.Heap.FirstFit
import MachaOS.Vfs.Gathering
import MachaOS.Vfs.Lookups
import MachaOS.StackGrowth
import MachaOS.Borrowing
import MachaOS.Placement
import MachaOS.Bookkeeping
import MachaOS.Notepad.Refinement
import MachaOS.Notepad.Page
import MachaOS.Desktop.Restoring
import MachaOS.Messages
import MachaOS.Truncating
import MachaOS.Terminal.Paths
import MachaOS.Terminal.Tokens
import MachaOS.Desktop.SessionLines
import MachaOS.Desktop.SettingsDisk
import MachaOS.Desktop.SettingsFile
import MachaOS.Terminal.PromptLine
import MachaOS.Explorer.HitTest
import MachaOS.Explorer.Designation
import MachaOS.Desktop.Agreement
import MachaOS.Desktop.Underflow
import MachaOS.Explorer.Sorting
import MachaOS.Graphics.Lines
import MachaOS.Graphics.Scaling
import MachaOS.Apps.Calculator
import MachaOS.Apps.ImageViewer
import MachaOS.Fat.Creating
import MachaOS.Mouse
import MachaOS.Sync
