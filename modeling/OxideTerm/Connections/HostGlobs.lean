import OxideTerm.Lib.Utf8
import OxideTerm.SshConfig.Lines

/-!
# Host globs

The two matchers of host patterns, of the options of an SSH configuration and of privilege
credentials. They go over the bytes with the same loop, which returns to the last star when it is
stuck, and differ in what they do in front of it and behind it.
-/

namespace OxideTerm.Connections

open OxideTerm.Lib OxideTerm.Lib.Text OxideTerm.SshConfig

/-- `b'*'`. -/
def starByte : UInt8 := 0x2a

/-- `b'?'`. -/
def anyByte : UInt8 := 0x3f

/-! ## The loop -/

structure GlobState where
  patternIndex : Nat
  valueIndex : Nat
  starIndex : Option Nat
  starValueIndex : Nat

def GlobState.new : GlobState :=
  { patternIndex := 0, valueIndex := 0, starIndex := none, starValueIndex := 0 }

/-- What one round of the loop comes to. -/
inductive GlobStep where
  | next (state : GlobState)
  | mismatch
  | finished (patternIndex : Nat)

def globStep (pattern value : Bytes) (state : GlobState) : GlobStep :=
  if state.valueIndex < value.length then
    if state.patternIndex < pattern.length ∧ (pattern[state.patternIndex]? = some anyByte ∨
        pattern[state.patternIndex]? = value[state.valueIndex]?) then
      .next { state with
        patternIndex := state.patternIndex + 1
        valueIndex := state.valueIndex + 1 }
    else if state.patternIndex < pattern.length ∧
        pattern[state.patternIndex]? = some starByte then
      .next { state with
        starIndex := some state.patternIndex
        patternIndex := state.patternIndex + 1
        starValueIndex := state.valueIndex }
    else
      match state.starIndex with
      | some star => .next { state with
          patternIndex := star + 1
          starValueIndex := state.starValueIndex + 1
          valueIndex := state.starValueIndex + 1 }
      | none => .mismatch
  else .finished state.patternIndex

/-- So many rounds of the loop; if they are enough, the place in the pattern behind it, unless the
matcher has returned inside it. -/
def globRun (pattern value : Bytes) : Nat → GlobState → Option (Option Nat)
  | 0, _ => none
  | rounds + 1, state =>
    match globStep pattern value state with
    | .next state => globRun pattern value rounds state
    | .mismatch => some none
    | .finished patternIndex => some (some patternIndex)

/-- Rounds that are always enough. -/
def globRounds (pattern value : Bytes) : Nat :=
  (value.length + 1) * (pattern.length + 1) + pattern.length + 1

def globLoop (pattern value : Bytes) : Option Nat :=
  (globRun pattern value (globRounds pattern value) .new).join

/-! ## Matchers -/

def wildcardMatch (pattern value : List Char) : Bool :=
  let pattern := utf8Bytes (toAsciiLowercase pattern)
  let value := utf8Bytes (toAsciiLowercase value)
  match globLoop pattern value with
  | some patternIndex => (pattern.drop patternIndex).all (· == starByte)
  | none => false

/-- The loop over the stars at the end of the pattern. -/
def skipStars (pattern : Bytes) (patternIndex : Nat) : Nat :=
  patternIndex + ((pattern.drop patternIndex).takeWhile (· == starByte)).length

def privilegeHostPatternMatches (host pattern : List Char) : Bool :=
  let host := toAsciiLowercase (trim host)
  let pattern := toAsciiLowercase (trim pattern)
  if pattern = [] then false
  else
    let host := utf8Bytes host
    let pattern := utf8Bytes pattern
    match globLoop pattern host with
    | some patternIndex => skipStars pattern patternIndex == pattern.length
    | none => false

end OxideTerm.Connections
