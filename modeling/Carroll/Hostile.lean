import Carroll.ConfigAgree
import Carroll.Damaged

/-! # Containers from anywhere

Which accesses the decoding functions make on a file of any content, and when all of them stay
inside the blocks and the local arrays.  Nothing in the code checks `number`, `length`, `maxinum`
and `mininum` before they are used; `DecryptFits` is the relation between them, the block for the
body and the decrypted bytes that keeps `libc0_decrypt` in bounds.

`libmsx_decode` has no such relation: `bin2hex` writes 64 digits to each of its arrays `md1` and
`md2`, which have 32 bytes (`not_inBounds_libmsxDecode`). -/

namespace Carroll

/-! ### `libc0_decrypt` -/

end Carroll
