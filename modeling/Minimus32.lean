import Minimus32.Library.Linked
import Minimus32.Library.Cursor
import Minimus32.Library.TracedRun
import Minimus32.Library.MixedRadix
import Minimus32.Library.FirstDue
import Minimus32.Library.Register
import Minimus32.Library.BitFrame
import Minimus32.Library.Framing
import Minimus32.Library.RowMajor
import Minimus32.Library.Raster
import Minimus32.Library.BitPacking
import Minimus32.Library.FilteredWalk
import Minimus32.Library.Accumulator
import Minimus32.Library.CyclicCode
import Minimus32.Library.Numeral
import Minimus32.Library.Store
import Minimus32.Library.Interaction
import Minimus32.Library.Contract
import Minimus32.Library.Throughout
import Minimus32.Library.Beside
import Minimus32.Timer1.Clock
import Minimus32.Timer1.Run
import Minimus32.Timer1.Roster
import Minimus32.Timer1.Recurring
import Minimus32.Timer1.WallTime
import Minimus32.Timer1.Schedule
import Minimus32.Timer1.Timing
import Minimus32.Timer1.Invocation
import Minimus32.Timer1.Lateness
import Minimus32.Timer1.Period
import Minimus32.Timer1.Deadline
import Minimus32.Timer1.Lone
import Minimus32.Timer1.Uptime
import Minimus32.Timer1.Removal
import Minimus32.Timer1.Preemption
import Minimus32.Timer1.Counter
import Minimus32.BoardSupport.ExternalInterrupt
import Minimus32.BoardSupport.Spi
import Minimus32.Dht11.Driver
import Minimus32.Dht11.Receiver
import Minimus32.Dht11.Robustness
import Minimus32.Dht11.Frame
import Minimus32.Utils.QuadratureDecoder
import Minimus32.Utils.QuadratureReads
import Minimus32.Utils.IntPrint
import Minimus32.Utils.TextMenu
import Minimus32.TempLogger.Program
import Minimus32.TempLogger.Display
import Minimus32.TempLogger.Mode
import Minimus32.TempLogger.Relay
import Minimus32.TempLogger.Failsafe
import Minimus32.TempLogger.Command
import Minimus32.TempLogger.Serial
import Minimus32.TempLogger.Interval
import Minimus32.TempLogger.Cadence
import Minimus32.TempLogger.Values
import Minimus32.TempLogger.Stream
import Minimus32.TempLogger.Isolation
import Minimus32.Display.Wire
import Minimus32.Display.Bitfont
import Minimus32.Ili9341.Driver
import Minimus32.Ili9341.Glyph
import Minimus32.Ili9341.Panel
import Minimus32.Ili9341.Painting
import Minimus32.Ili9341.Text
import Minimus32.LcdTerminal.Terminal
import Minimus32.LcdTerminal.Screen
import Minimus32.LcdTerminal.Drawing
import Minimus32.LcdTerminal.Renderer
import Minimus32.LcdTerminal.Agreement
import Minimus32.LcdTerminal.Loop
import Minimus32.LcdTerminal.Reads
import Minimus32.Fonts.Ppm
import Minimus32.Fonts.PpmReader
import Minimus32.Fonts.CreateFont
import Minimus32.Fonts.RoundTrip
import Minimus32.Fonts.CreateImage565
import Minimus32.Fonts.CreateVerticalByteFont
import Minimus32.Pcd8544.Controller
import Minimus32.Pcd8544.Driver
import Minimus32.Pcd8544.Print
import Minimus32.Pcd8544.RoundTrip
import Minimus32.LedAlarmClock.Drive
import Minimus32.Peripherals.SwRcServo
import Minimus32.Peripherals.ServoPulse
import Minimus32.Peripherals.HwRcServo
import Minimus32.BoardSupport.BusLock
import Minimus32.BoardSupport.SpiSetup
import Minimus32.BoardSupport.SpiUnit
import Minimus32.BoardSupport.Twi
import Minimus32.BoardSupport.TwiStatus
import Minimus32.BoardSupport.TwiUnit
import Minimus32.Display.Sessions
import Minimus32.Ili9341.Transfers
import Minimus32.BoardSupport.OneWire
import Minimus32.OneWire.Wire
import Minimus32.OneWire.Slots
import Minimus32.OneWire.Transfer
import Minimus32.OneWire.Ds18s20
import Minimus32.OneWire.Thermometers
import Minimus32.Hd44780.Controller
import Minimus32.Hd44780.Driver
import Minimus32.Hd44780.Transfer
import Minimus32.Hd44780.Session
import Minimus32.Hd44780.Contention
import Minimus32.Hd44780.Text
import Minimus32.Hd44780.HelloWorld
import Minimus32.Temperature.Digits
import Minimus32.Temperature.Demo
import Minimus32.Temperature.Reading
import Minimus32.Temperature.Rounds
import Minimus32.BoardSupport.SwDither
import Minimus32.Peripherals.HBridge3Pin
import Minimus32.Buildpp.Parse
import Minimus32.Buildpp.Entries
import Minimus32.Buildpp.Flags
import Minimus32.Buildpp.Headers
import Minimus32.Buildpp.Linking
import Minimus32.Buildpp.Cache
import Minimus32.Buildpp.Targets
import Minimus32.Buildpp.Coherence
import Minimus32.Buildpp.Parallel
import Minimus32.SdCard.Medium
import Minimus32.PetitFat.Disk
import Minimus32.PetitFat.Table
import Minimus32.PetitFat.Chain
import Minimus32.PetitFat.File
import Minimus32.PetitFat.Directory
import Minimus32.PetitFat.Path
import Minimus32.PetitFat.Names
import Minimus32.PetitFat.FileSystem
import Minimus32.PetitFat.Diskio
import Minimus32.PetitFat.MicroTest
import Minimus32.PetitFat.Mount
import Minimus32.SdCard.Driver
import Minimus32.SdCard.Card
import Minimus32.SdCard.Sectors
import Minimus32.SdCard.Writing
import Minimus32.SdCard.Startup
import Minimus32.SdCard.Session
import Minimus32.SdCard.Release
