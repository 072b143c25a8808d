import Fxmy.Core
import Fxmy.StringType

/-!
# Strings (`fxmy_string.c`)

A pointer into a string is the list of the characters from it to the end of the block it points
into, the terminator and what follows included; NULL is `none`. Reading through an empty list is a
read outside the block.

The macros of the source are generic in the character type and in the functions of `ctype.h` they
call; `stristr` and `nextToken` are `FXMY_STRISTR_BODY` and `FXMY_NEXT_TOKEN_BODY`.
-/

namespace Fxmy

section Generic

variable {α : Type} [CodeUnit α] [DecidableEq α]

/-! ## Searching -/

/-- The inner loop of `FXMY_STRISTR_BODY`: whether the needle is used up where it ends. -/
def matchHere (lower : α → α) : List α → List α → Except Fault Bool
  | h :: haystack, n :: needle =>
    if lower h = lower n then
      if h = nul then .ok (n = nul) else matchHere lower haystack needle
    else .ok (n = nul)
  | _, _ => .error .outside

/-- The outer loop of `FXMY_STRISTR_BODY`. -/
def stristrLoop (lower : α → α) (needle : List α) : List α → Except Fault (Option (List α))
  | [] => .error .outside
  | h :: haystack => do
    if ← matchHere lower (h :: haystack) needle then .ok (some (h :: haystack))
    else if h = nul then .ok none
    else stristrLoop lower needle haystack

/-- `FXMY_STRISTR_BODY`. -/
def stristr (lower : α → α) (haystack needle : Option (List α)) :
    Except Fault (Option (List α)) :=
  match haystack, needle with
  | some haystack, some needle => stristrLoop lower needle haystack
  | _, _ => .ok none

/-! ## Tokens -/

/-- The loop of `fxmy_consume_whitespace`. -/
def skipSpace (isspace : α → Bool) : List α → Except Fault (List α)
  | [] => .error .outside
  | c :: p => if isspace c then skipSpace isspace p else .ok (c :: p)

/-- `fxmy_consume_whitespace`. -/
def consumeWhitespace (isspace : α → Bool) : List α → Except Fault (List α)
  | [] => .error .outside
  | c :: p => if c = nul then .ok (c :: p) else skipSpace isspace (c :: p)

/-- The loop of `FXMY_FIND_END_OF_STRING_BODY`, behind the character `prev`. -/
def findEndLoop (stringChar prev : α) : List α → Except Fault (List α)
  | [] => .error .outside
  | c :: p =>
    if c = nul then .ok (c :: p)
    else if c = stringChar ∧ prev ≠ C '\\' then .ok p
    else findEndLoop stringChar c p

/-- `FXMY_FIND_END_OF_STRING_BODY`. -/
def findEndOfString (start : List α) (stringChar : α) : Except Fault (List α) :=
  match start with
  | [] => .error .outside
  | prev :: p => findEndLoop stringChar prev p

/-- The loop over a comment in `FXMY_NEXT_TOKEN_BODY`. -/
def skipComment : List α → Except Fault (List α)
  | [] => .error .outside
  | c :: p => if c = nul ∨ c = C '\n' then .ok (c :: p) else skipComment p

/-- The test for a comment and the loop behind it. -/
def consumeComment : List α → Except Fault (List α)
  | [] => .error .outside
  | c :: p =>
    if c = C '-' then
      match p with
      | [] => .error .outside
      | d :: _ => if d = C '-' then skipComment (c :: p) else .ok (c :: p)
    else .ok (c :: p)

/-- The loop over a token that is not quoted; the pointer stands behind the token's first
character. -/
def scanToken (isspace : α → Bool) : List α → Except Fault (List α)
  | [] => .error .outside
  | c :: p =>
    if isspace c ∨ c = C ';' ∨ c = C ',' ∨ c = nul then .ok (c :: p) else scanToken isspace p

/-- `FXMY_NEXT_TOKEN_BODY`: the token's beginning and what is stored in `*end_ptr`. The pointer
behind a comment is overwritten, so a comment is not skipped. -/
def nextToken (isspace : α → Bool) (str : Option (List α)) :
    Except Fault (Option (List α) × Option (List α)) :=
  match str with
  | none => .ok (none, none)
  | some str => do
    let comment ← consumeWhitespace isspace str
    let _ ← consumeComment comment
    match ← consumeWhitespace isspace str with
    | [] => .error .outside
    | c :: p =>
      if c = nul then .ok (none, none)
      else if c = C '\'' ∨ c = C '"' then do
        let stop ← findEndOfString (c :: p) c
        .ok (some (c :: p), some stop)
      else do
        let stop ← scanToken isspace p
        .ok (some (c :: p), some stop)

/-- The text of a string: what stands before the terminator. A block without one is read past. -/
def stringText (block : List α) : Except Fault (List α) :=
  if nul ∈ block then .ok (block.takeWhile (· ≠ nul)) else .error .outside

theorem stringText_terminated {text : List α} (ht : nul ∉ text) (rest : List α) :
    stringText (text ++ nul :: rest) = .ok text := by
  have htake : (text ++ nul :: rest).takeWhile (· ≠ nul) = text := by
    rw [List.takeWhile_append_of_pos]
    · simp
    · intro c hc
      have hne : c ≠ nul := fun h => ht (h ▸ hc)
      simpa using hne
  unfold stringText
  rw [if_pos (List.mem_append_right _ List.mem_cons_self), htake]

/-- `wcsncpy(dest, src, n)` into the start of a block: `n` characters, padded with terminators. -/
def strncpy (dest src : List α) (n : Nat) : Except Fault (List α) := do
  let text ← stringText src
  let copied := text.take n ++ List.replicate (n - text.length) nul
  if n ≤ dest.length then .ok (copied ++ dest.drop n) else .error .outside

/-- `wcsncat(dest, src, n)`: at most `n` characters of `src`, and a terminator, behind the text of
`dest`. -/
def strncat (dest : List α) (src : Option (List α)) (n : Nat) : Except Fault (List α) :=
  match src with
  | none => .error .null
  | some src => do
    let old ← stringText dest
    let text ← stringText src
    let joined := old ++ text.take n ++ [nul]
    if joined.length ≤ dest.length then .ok (joined ++ dest.drop joined.length)
    else .error .outside

/-- `_snwprintf` of the characters `text` into `block`: as many as `count`, and a terminator if
there are fewer. -/
def snprintf (block : List α) (count : Nat) (text : List α) : Except Fault (List α) :=
  let written := if text.length < count then text ++ [nul] else text.take count
  if written.length ≤ block.length then .ok (written ++ block.drop written.length)
  else .error .outside

end Generic

/-! ## Narrow strings -/

namespace Narrow

variable (ct : Ctype UInt8)

/-- `fxmy_stristr`. -/
def stristr (haystack needle : Option (List UInt8)) : Except Fault (Option (List UInt8)) :=
  Fxmy.stristr ct.lower haystack needle

/-- `fxmy_next_token`. -/
def nextToken (str : Option (List UInt8)) :
    Except Fault (Option (List UInt8) × Option (List UInt8)) :=
  Fxmy.nextToken ct.isspace str

end Narrow

/-! ## Wide strings -/

section Wide

variable (ct : Ctype FxmyChar)

/-- `fxmy_fstristr`. -/
def fstristr (haystack needle : Option (List FxmyChar)) : Except Fault (Option (List FxmyChar)) :=
  stristr ct.lower haystack needle

/-- `fxmy_fnext_token`. -/
def fnextToken (str : Option (List FxmyChar)) :
    Except Fault (Option (List FxmyChar) × Option (List FxmyChar)) :=
  nextToken ct.isspace str

/-- The loop of `fxmy_fstrnicmp`. -/
def fstrnicmpLoop : List FxmyChar → List FxmyChar → Nat → Except Fault Int
  | _, _, 0 => .ok 0
  | a :: lhs, b :: rhs, length + 1 =>
    if ct.lower a ≠ ct.lower b then .ok ((ct.lower a).toNat - (ct.lower b).toNat)
    else fstrnicmpLoop lhs rhs length
  | _, _, _ + 1 => .error .outside

/-- `fxmy_fstrnicmp`; with length 0 neither string is read. -/
def fstrnicmp (lhs : Option (List FxmyChar)) (rhs : List FxmyChar) (length : Nat) :
    Except Fault Int :=
  match lhs, length with
  | _, 0 => .ok 0
  | none, _ + 1 => .error .null
  | some lhs, length => fstrnicmpLoop ct lhs rhs length

/-- `fxmy_fstrncat`. -/
def fstrncat (dest : List FxmyChar) (size : Nat) (src : Option (List FxmyChar)) :
    Except Fault (List FxmyChar) := do
  let joined ← strncat dest src size
  if 0 < size ∧ size - 1 < joined.length then .ok (joined.set (size - 1) nul)
  else .error .outside

end Wide

/-! ## Decoding -/

section Decode

variable (build : Build)

/-- `fxmy_utf8_to_ucs2`: the character, and the pointer behind its bytes. -/
def utf8ToUcs2 (src : List UInt8) : Except Stop (FxmyChar × List UInt8) :=
  match src with
  | [] => .error .bytes
  | in0 :: rest =>
    if in0 = 0 then .ok (0, src)
    else if in0 < 0x80 then .ok (in0.toUInt16, rest)
    else if in0 &&& 0xE0 = 0xE0 then
      match rest with
      | in1 :: in2 :: out => do
        assert build (in1 ≠ 0 || in2 ≠ 0)
        .ok (((in0.toUInt16 &&& 0xF) <<< 12) ||| ((in1.toUInt16 &&& 0x3F) <<< 6) |||
          (in2.toUInt16 &&& 0x3F), out)
      | _ => .error .bytes
    else if in0 &&& 0xC0 = 0xC0 then
      match rest with
      | in1 :: out => do
        assert build (in1 ≠ 0)
        .ok (((in0.toUInt16 &&& 0x1F) <<< 6) ||| (in1.toUInt16 &&& 0x3F), out)
      | _ => .error .bytes
    else .error .abort

/-- The loop of `fxmy_fstrfromchar`, with `dest` from `dest[i]` on. The pointer `end` leaves
`remaining` bytes of the block behind it, so `src < end` while more bytes than these remain. -/
def fstrfromcharLoop (remaining : Nat) : List FxmyChar → List UInt8 → Except Stop (List FxmyChar)
  | dest, src =>
    if src.length ≤ remaining then .ok dest
    else do
      let (c, src) ← utf8ToUcs2 build src
      match dest with
      | [] => .error (.text .outside)
      | _ :: dest => do
        let rest ← fstrfromcharLoop remaining dest src
        .ok (c :: rest)

/-- `fxmy_fstrfromchar`. -/
def fstrfromchar (dest : List FxmyChar) (src : List UInt8) (size : Nat) :
    Except Stop (List FxmyChar) :=
  if size ≤ dest.length then
    fstrfromcharLoop build (src.length - size) (List.replicate size 0 ++ dest.drop size) src
  else .error (.text .outside)

/-- The loop of `fxmy_fstrlenfromchar`, with `remaining` as in `fstrfromcharLoop`. Nothing is written
that could run out, so the turns are bounded. -/
def fstrlenfromcharLoop (remaining i : Nat) (src : List UInt8) : Nat → Except Stop Nat
  | 0 => .error (.text .fuel)
  | fuel + 1 =>
    if src.length ≤ remaining then .ok i
    else do
      let (_, src) ← utf8ToUcs2 build src
      fstrlenfromcharLoop remaining (i + 1) src fuel

/-- `fxmy_fstrlenfromchar`: at most `size` turns, since each that gets past a character reads one
byte at least. -/
def fstrlenfromchar (src : List UInt8) (size : Nat) : Except Stop Nat :=
  fstrlenfromcharLoop build (src.length - size) 0 src (size + 1)

end Decode

end Fxmy
