import Carroll.Chain
import Carroll.Runs
import Carroll.Mem
import Carroll.Cbc
import Carroll.Digest
import Carroll.Md5
import Carroll.Sha256
import Carroll.Rmc
import Carroll.RmcLifecycle
import Carroll.RmcIdentity
import Carroll.Elapsed
import Carroll.RmcTimeout
import Carroll.RmcSweep
import Carroll.Alloc
import Carroll.RmcAlloc
import Carroll.Cor0
import Carroll.Cor0Bag
import Carroll.Callback
import Carroll.Stream
import Carroll.Libc0
import Carroll.Msx
import Carroll.File
import Carroll.MsxFile
import Carroll.Header
import Carroll.RoundTrip
import Carroll.Damaged
import Carroll.Convert
import Carroll.Config
import Carroll.ConfigAgree
import Carroll.Hostile
import Carroll.Readline
import Carroll.ModLoad
import Carroll.Framing
import Carroll.Segments
import Carroll.Detection
import Carroll.Rollover
import Carroll.Driver
import Carroll.Search
import Carroll.Bluetooth
import Carroll.Counted
import Carroll.Mod
import Carroll.Dispatch
import Carroll.Certify
import Carroll.Accounting
import Carroll.Startup
import Carroll.Shutdown
import Carroll.Links
import Carroll.Cenvp
import Carroll.ModHeap
import Carroll.ThreadCancel
import Carroll.Buffers
import Carroll.Cstring
import Carroll.ConfCopy
import Carroll.ModSetup
import Carroll.ModDriven
import Carroll.Socket
import Carroll.Coding
import Carroll.Trim
import Carroll.KeyAlternating
import Carroll.Galois
import Carroll.RijndaelTables
import Carroll.Rijndael
import Carroll.RijndaelCipher
import Carroll.RijndaelKeys
import Carroll.RijndaelCbc
import Carroll.BlockStream
import Carroll.Sha2Rounds
import Carroll.Sha2
import Carroll.Md5Stream
import Carroll.ByteFields
import Carroll.Wave
import Carroll.WaveFile
import Carroll.PcmTransfer
import Carroll.Playback
import Carroll.CaptureFile
import Carroll.Adler32
