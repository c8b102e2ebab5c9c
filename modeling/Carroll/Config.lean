import Carroll.Convert
import Carroll.Readline

/-! # Loading a configuration

`_conf_load` of `config.c`, with what it hands to `_conf_readline` (`Readline.lean`).

* A configuration that holds `[settings]` is read as it is, and a NUL byte is stored behind it.
  Any other file is taken for a container: its body is decrypted into a block of `maxinum + 4`
  bytes, whatever `libc0_decrypt` returns, and no NUL byte is stored.
* `size` is of type `uint32_t`, so only a read of no bytes is noticed, not the result `-1`. -/

namespace Carroll

/-- Outcome of the steps of `_conf_load`. -/
structure ConfLoadEnv where
  ptr : Bool
  opened : Bool
  fstat : Bool
  buffer : Option Mem
  read : Transfer
  load : LoadEnv
  block : Option Mem
  decrypt : DecryptEnv
  readline : ReadlineAlloc

end Carroll
