/-!
# Ways to stop (`fxmy_core.h`)

The functions that only work on characters fail in one way, a misuse of memory (`Fault`). A program
stops (`Stop`) when `abort` is called, directly or by a `VERIFY` or an `ASSERT`, at a
`__debugbreak`, and where the language leaves its behaviour undefined.
-/

namespace Fxmy

/-- A misuse of character memory. -/
inductive Fault where
  /-- A read or write outside the block the pointer points into. -/
  | outside
  /-- A NULL pointer is read through. -/
  | null
  /-- Arithmetic on pointers that do not point into one block. -/
  | wild
  /-- The bound that the model puts on a loop is used up. -/
  | fuel
  deriving DecidableEq, Repr

/-- How a program stops before it returns. -/
inductive Stop where
  /-- `abort()`, also by `VERIFY` and `ASSERT`. -/
  | abort
  /-- `__debugbreak()` outside a debugger. -/
  | debugbreak
  /-- A NULL status or structure is read through. -/
  | null
  /-- A read or write outside a block of bytes, such as the transfer buffer. -/
  | bytes
  /-- A misuse of character memory. -/
  | text (f : Fault)
  deriving DecidableEq, Repr

/-- What the build and the way the program is run decide. -/
structure Build where
  /-- `NDEBUG`: `ASSERT` is compiled out. -/
  ndebug : Bool
  /-- A debugger continues the program after each `__debugbreak`. -/
  debugger : Bool

/-- `__debugbreak()`. -/
def debugbreak (build : Build) : Except Stop Unit :=
  if build.debugger then .ok () else .error .debugbreak

/-- `VERIFY(x)`. -/
def verify (x : Bool) : Except Stop Unit := if x then .ok () else .error .abort

/-- `ASSERT(x)`. -/
def assert (build : Build) (x : Bool) : Except Stop Unit :=
  if build.ndebug then .ok () else verify x

/-- `FXMY_OK` as a `uint64_t`. -/
def FXMY_OK : UInt64 := 0

/-- `FXMY_ERROR`. -/
def FXMY_ERROR : UInt64 := 0xFFFFFFFFFFFFFFFF

@[simp] theorem verify_eq_ok {x : Bool} {u : Unit} : verify x = .ok u ↔ x = true := by
  cases x <;> simp [verify]

/-- A failed `VERIFY` aborts; nothing else comes of it. -/
theorem verify_eq_error {x : Bool} {e : Stop} : verify x = .error e ↔ x = false ∧ e = .abort := by
  cases x <;> simp [verify, eq_comm]

/-- An `ASSERT` passes or aborts. -/
theorem assert_eq (build : Build) (x : Bool) :
    assert build x = if build.ndebug || x then .ok () else .error .abort := by
  unfold assert verify
  cases build.ndebug <;> rfl

end Fxmy
