import PaperNamePlate.Lib.Slice
import PaperNamePlate.Lib.Tlv
import PaperNamePlate.Lib.Bits
import PaperNamePlate.Lib.Text
import PaperNamePlate.Lib.Run
import PaperNamePlate.Lib.Stream
import PaperNamePlate.Lib.NdefFormat
import PaperNamePlate.Lib.Base64
import PaperNamePlate.Plate.Content
import PaperNamePlate.Plate.Base64
import PaperNamePlate.Plate.Message
import PaperNamePlate.Plate.Parsers
import PaperNamePlate.Plate.Render
import PaperNamePlate.Plate.Painting
import PaperNamePlate.Plate.Draw
import PaperNamePlate.Plate.TagPanel
import PaperNamePlate.Plate.Restorable
import PaperNamePlate.Plate.Restore
import PaperNamePlate.Plate.Plain
import PaperNamePlate.Plate.Limits
import PaperNamePlate.Plate.Uri
import PaperNamePlate.Lib.Window
import PaperNamePlate.Lib.Rewind
import PaperNamePlate.Ble.ImgRx
import PaperNamePlate.Ble.Transfer
import PaperNamePlate.Lib.Effect
import PaperNamePlate.Lib.Triple
import PaperNamePlate.Lib.Simulates
import PaperNamePlate.Lib.Nesting
import PaperNamePlate.Nfc.St25r3916
import PaperNamePlate.Nfc.Reader
import PaperNamePlate.Nfc.T2tEmu
import PaperNamePlate.Nfc.TagMemory
import PaperNamePlate.Nfc.PageStore
import PaperNamePlate.Nfc.DataArea
import PaperNamePlate.Nfc.Polling
import PaperNamePlate.Nfc.Transmit
import PaperNamePlate.Nfc.Coil
import PaperNamePlate.Nfc.Collision
import PaperNamePlate.Nfc.Anticollision
import PaperNamePlate.Nfc.Aerial
import PaperNamePlate.Nfc.Select
import PaperNamePlate.Nfc.IsoDep
import PaperNamePlate.Nfc.Type4
import PaperNamePlate.Nfc.Activation
import PaperNamePlate.Nfc.Halted
import PaperNamePlate.Nfc.Nesting
import PaperNamePlate.Lib.Cells
import PaperNamePlate.Lib.Crc
import PaperNamePlate.Store.ConfigStore
import PaperNamePlate.Store.Slots
import PaperNamePlate.Store.Checksum
import PaperNamePlate.Lib.Raster
import PaperNamePlate.Epd.FrameBuffer
import PaperNamePlate.Epd.Lut
import PaperNamePlate.Epd.Controller
import PaperNamePlate.Epd.Ssd1677
import PaperNamePlate.Epd.Wired
import PaperNamePlate.Epd.Face
import PaperNamePlate.Epd.Glass
import PaperNamePlate.App.App
import PaperNamePlate.App.Serving
import PaperNamePlate.App.Emulation
import PaperNamePlate.App.Shown
import PaperNamePlate.App.Kept
import PaperNamePlate.App.Reader
import PaperNamePlate.App.Controls
import PaperNamePlate.App.Paper
import PaperNamePlate.App.Alike
import PaperNamePlate.App.Epaper
import PaperNamePlate.Ble.Hci
import PaperNamePlate.Ble.Reassembly
import PaperNamePlate.Ble.Crc32
import PaperNamePlate.Ble.Session
import PaperNamePlate.Ble.Handover
import PaperNamePlate.Ble.Sender
import PaperNamePlate.Ble.Delivery
import PaperNamePlate.Ble.Form
import PaperNamePlate.Ble.Preview
import PaperNamePlate.Ble.Freshness
import PaperNamePlate.Ble.Device
import PaperNamePlate.Ble.Pictures
import PaperNamePlate.Ble.Waking
import PaperNamePlate.Ble.Alike
import PaperNamePlate.Ble.OnGlass
import PaperNamePlate.Nfc.Tap
import PaperNamePlate.Nfc.Vigil
import PaperNamePlate.Nfc.Phone
