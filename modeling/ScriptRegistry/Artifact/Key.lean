/-
ScriptRegistry/Artifact/Key.lean

Keys of stored source texts.

The key of a new text is `name/vN-token.py`, or `name/privacy_vN-token.py` for a
privacy script.  The token is drawn afresh for every text, so that two writers
who reach for the same version never write to the same key.
-/
import ScriptRegistry.Algorithm.Basic

namespace ScriptRegistry.Artifact

/-- The key of a stored text. -/
structure Key where
  text : String
  deriving DecidableEq, Repr

/-- Which script of an algorithm a text is. -/
inductive Role
  | main
  | privacy
  deriving DecidableEq, Repr

/-- What the file name of a text starts with. -/
def Role.mark : Role → String
  | .main => "v"
  | .privacy => "privacy_v"

/-- Whether a character is a lower-case hexadecimal digit. -/
def isTokenChar (c : Char) : Bool :=
  ('0' ≤ c && c ≤ '9') || ('a' ≤ c && c ≤ 'f')

/-- A token: 32 lower-case hexadecimal digits. -/
structure Token where
  digits : List Char
  length_digits : digits.length = 32
  hex : digits.all isTokenChar = true
  deriving DecidableEq, Repr

/-- The lowest hexadecimal digits of a number, as many as asked for. -/
def tokenDigits (n : Nat) : Nat → List Char
  | 0 => []
  | places + 1 => tokenDigits (n / 16) places ++ [Nat.digitChar (n % 16)]

theorem length_tokenDigits (n places : Nat) : (tokenDigits n places).length = places := by
  induction places generalizing n with
  | zero => rfl
  | succ places ih => simp [tokenDigits, ih]

theorem isTokenChar_digitChar : ∀ d : Fin 16, isTokenChar (Nat.digitChar d.val) = true := by
  decide

theorem all_tokenDigits (n places : Nat) : (tokenDigits n places).all isTokenChar = true := by
  induction places generalizing n with
  | zero => rfl
  | succ places ih =>
    simp [tokenDigits, ih, isTokenChar_digitChar ⟨n % 16, Nat.mod_lt _ (by decide)⟩]

/-- The token that spells the lowest 128 bits of a number. -/
def Token.ofNat (n : Nat) : Token :=
  ⟨tokenDigits n 32, length_tokenDigits n 32, all_tokenDigits n 32⟩

/-- The key of a new text. -/
def Key.fresh (name : AlgorithmName) (version : Version) (role : Role) (token : Token) : Key :=
  ⟨name.text ++ "/" ++ role.mark ++ version.render ++ "-" ++ String.ofList token.digits ++ ".py"⟩

end ScriptRegistry.Artifact
