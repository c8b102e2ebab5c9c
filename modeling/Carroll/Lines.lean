import Carroll.Mem

/-! # The lines of a configuration

`_conf_readline` of `config.c` takes a text apart at its newlines and hands its settings to the `mod`
callback, one round for each newline (`readlineLoop`).  A line shorter than five bytes or with `;`,
`#`, `@`, `/` or `[` at its start is skipped, and one without `=` ends the function.

What follows the last newline is handled by no round, but bytes behind the text can complete it:
`ExtraLine`. -/

namespace Carroll

/-- `\n`. -/
def newline : UInt8 := 0x0a

/-- The first line of a text, and what comes after its newline. -/
def splitLine (text : List UInt8) : List UInt8 × List UInt8 :=
  (text.takeWhile (· ≠ newline), (text.dropWhile (· ≠ newline)).drop 1)

/-- The line starts with `;`, `#`, `@`, `/` or `[`. -/
def isSkipped : List UInt8 → Bool
  | [] => false
  | b :: _ => decide (b ∈ [(0x3b : UInt8), 0x23, 0x40, 0x2f, 0x5b])

/-- The string handed to `mod`: without a `\r` at the end, a `$` at the start, and spaces. -/
def modLine (line : List UInt8) : List UInt8 :=
  let line := if line.getLast? = some 0x0d then line.dropLast else line
  let line := match line with
    | 0x24 :: line => line
    | line => line
  line.filter (· ≠ 0x20)

/-- The strings handed to `mod` in `n` rounds. -/
def readlineLoop : ℕ → List UInt8 → List (List UInt8)
  | 0, _ => []
  | n + 1, text =>
      let line := (splitLine text).1
      let rest := (splitLine text).2
      if 5 < line.length + 1 then
        if isSkipped line then readlineLoop n rest
        else if 0x3d ∈ line then modLine line :: readlineLoop n rest
        else []
      else readlineLoop n rest

/-! ### Text behind the text -/

theorem splitLine_append {line : List UInt8} (h : newline ∉ line) (rest : List UInt8) :
    splitLine (line ++ newline :: rest) = (line, rest) := by
  have hne : ∀ b ∈ line, decide (b ≠ newline) = true := fun b hb =>
    decide_eq_true fun heq => h (heq ▸ hb)
  rw [splitLine, List.takeWhile_append_of_pos hne, List.dropWhile_append_of_pos hne,
    List.takeWhile_cons_of_neg (by simp), List.dropWhile_cons_of_neg (by simp)]
  simp

theorem splitLine_suffix (text : List UInt8) : (splitLine text).2 <:+ text :=
  (List.drop_suffix _ _).trans (List.dropWhile_suffix _)

end Carroll
