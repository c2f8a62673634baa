import PokemonSVE.Audio.Configuration
import PokemonSVE.Audio.Samples
import PokemonSVE.Basis.Clock
import PokemonSVE.Basis.Counter
import PokemonSVE.Basis.Leads
import PokemonSVE.Basis.Memory
import PokemonSVE.Basis.Monitor
import PokemonSVE.Basis.Program
import PokemonSVE.Basis.Progress
import PokemonSVE.Basis.Raster
import PokemonSVE.Basis.Run
import PokemonSVE.Basis.TwoWire
import PokemonSVE.Board.Clocking
import PokemonSVE.Board.Display
import PokemonSVE.Board.Keyboard
import PokemonSVE.Board.Screens
import PokemonSVE.Game.Animation
import PokemonSVE.Game.Gates
import PokemonSVE.Game.Grid
import PokemonSVE.Game.Gym
import PokemonSVE.Game.Holding
import PokemonSVE.Game.Journey
import PokemonSVE.Game.Phases
import PokemonSVE.Game.Region
import PokemonSVE.Game.Rooms
import PokemonSVE.Game.Session
import PokemonSVE.Game.Spin
import PokemonSVE.Game.Statues
import PokemonSVE.Game.StepLength
import PokemonSVE.Game.Stepping
import PokemonSVE.Game.System
import PokemonSVE.Game.Teleport
import PokemonSVE.Game.Teleporter
import PokemonSVE.Game.Tile
import PokemonSVE.Game.Visit
import PokemonSVE.Rtl.AudioInterface
import PokemonSVE.Rtl.FrameDrawer
import PokemonSVE.Rtl.FramebufferRam
import PokemonSVE.Rtl.GameFSM
import PokemonSVE.Rtl.GymBoundsChecker
import PokemonSVE.Rtl.GymTileLogic
import PokemonSVE.Rtl.HpiIoIntf
import PokemonSVE.Rtl.PixelLogic
import PokemonSVE.Rtl.SpriteRam
import PokemonSVE.Rtl.StateAudio
import PokemonSVE.Rtl.VgaController
import PokemonSVE.Usb.Completion
import PokemonSVE.Usb.Driver
import PokemonSVE.Usb.Enumeration
import PokemonSVE.Usb.IoHandler
import PokemonSVE.Usb.Keycode
import PokemonSVE.Usb.Message
import PokemonSVE.Usb.Pins
import PokemonSVE.Usb.Reads
import PokemonSVE.Usb.Recovery
import PokemonSVE.Usb.Report
import PokemonSVE.Usb.Rules
import PokemonSVE.Usb.Strobes
import PokemonSVE.Usb.TdList
import PokemonSVE.Usb.Toggle
import PokemonSVE.Video.Addressing
import PokemonSVE.Video.Composition
import PokemonSVE.Video.Fade
import PokemonSVE.Video.Framebuffer
import PokemonSVE.Video.Picture
import PokemonSVE.Video.Screen
import PokemonSVE.Video.Sprite
import PokemonSVE.Video.Sync
import PokemonSVE.Video.Tearing
import PokemonSVE.Video.WritePort
