import KbReg.Lib.Pieces
import KbReg.Lib.Keyed
import KbReg.Firmware.Receive
import KbReg.Firmware.Staging
import KbReg.Host.Session
import KbReg.Host.Transfer
import KbReg.Protocol.Delivery
import KbReg.Protocol.Registers
import KbReg.Protocol.Losses
import KbReg.Host.Device
import KbReg.Protocol.Answers
import KbReg.Cli.Main
import KbReg.Firmware.Bounds
import KbReg.Protocol.Bounds
import KbReg.Lib.Runs
import KbReg.Protocol.Replies
import KbReg.Protocol.Playback
import KbReg.Protocol.Sharing
import KbReg.Detect.Config
import KbReg.Detect.Scan
import KbReg.Lib.Overlay
import KbReg.Detect.Loading
import KbReg.Detect.Daemon
import KbReg.Detect.Agreement
import KbReg.Detect.Failures
import KbReg.Lib.Unicode
import KbReg.Text.Utf8
import KbReg.Cli.Input
import KbReg.Text.Descriptors
import KbReg.Cli.Words
import KbReg.Host.Reading
import KbReg.Host.Diagnosis
import KbReg.Firmware.Execution
import KbReg.Firmware.Notebook
import KbReg.Text.Checked
import KbReg.Text.Size
import KbReg.Detect.Fleet
import KbReg.Detect.Settling
import KbReg.Cli.Console
import KbReg.Protocol.Silence
import KbReg.Detect.Main
import KbReg.Cli.Clipboard
import KbReg.Lib.Gates
import KbReg.Protocol.Strokes
import KbReg.Cli.Duration
import KbReg.Protocol.Storage
import KbReg.Text.Overread
