import Mathlib
import OxideTerm.Lib.Bytes

/-!
# Authenticated-plaintext fragmentation

A compressed state message is cut into bodies of at most 1214 bytes. Each travels behind a
14-byte prefix: two timestamps, the state identifier, and a word with the final bit over the
fragment index. `FragmentAccumulator` puts the message of one identifier together again,
whatever the order of arrival.

The 16-bit index is a natural number here. The index of a parsed fragment is below `2 ^ 15`
because the word is masked, and no operation on it overflows.
-/

namespace OxideTerm.Fernomade

open OxideTerm.Lib

def fragmentHeaderBytes : Nat := 14
def finalFragmentBit : Nat := 2 ^ 15
def fragmentIndexMask : Nat := finalFragmentBit - 1
def maxFragmentBodyBytes : Nat := 1214
def maxReceivedFragmentBodyBytes : Nat := 1300

/-- Metadata outside the compressed state message but inside authentication. -/
structure FragmentHeader where
  sentTimestamp : UInt16
  echoedTimestamp : UInt16
  stateId : UInt64
  index : Nat
  isFinal : Bool
deriving DecidableEq

/-- An authenticated plaintext fragment. -/
structure Fragment where
  header : FragmentHeader
  body : Bytes
deriving DecidableEq

inductive FragmentError where
  | headerTooShort
  | bodyTooLarge
  | tooManyFragments
  | mismatchedState
  | indexAfterFinal
  | conflictingFinalIndex
  | conflictingDuplicate
  | messageTooLarge
  | missingFragment
deriving DecidableEq

/-- `usize::div_ceil`. -/
def divCeil (a b : Nat) : Nat := (a + b - 1) / b

/-- The piece at position `i` of a slice cut every `size` elements. -/
def chunkAt (size : Nat) (message : Bytes) (i : Nat) : Bytes := (message.drop (i * size)).take size

/-- `slice::chunks`. -/
def chunks (size : Nat) (message : Bytes) : List Bytes :=
  (List.range (divCeil message.length size)).map (chunkAt size message)

namespace Fragment

/-- Parses the fixed 14-byte prefix after packet authentication. -/
def parse (plaintext : Bytes) : Except FragmentError Fragment :=
  if plaintext.length < fragmentHeaderBytes then .error .headerTooShort
  else
    let fragmentWord := ofBeBytes ((plaintext.drop 12).take 2)
    let header : FragmentHeader :=
      { sentTimestamp := u16FromBeBytes (plaintext.take 2)
        echoedTimestamp := u16FromBeBytes ((plaintext.drop 2).take 2)
        stateId := u64FromBeBytes ((plaintext.drop 4).take 8)
        index := fragmentWord % finalFragmentBit
        isFinal := fragmentWord / finalFragmentBit % 2 = 1 }
    let body := plaintext.drop fragmentHeaderBytes
    if body.length > maxReceivedFragmentBodyBytes then .error .bodyTooLarge
    else .ok { header, body }

/-- How many fragments a message takes. An empty message still takes one. -/
def chunkCount (message : Bytes) : Nat := divCeil (max message.length 1) maxFragmentBodyBytes

/-- Splits a compressed state message using the observed 1214-byte boundary. -/
def split (message : Bytes) (sentTimestamp echoedTimestamp : UInt16) (stateId : UInt64) :
    Except FragmentError (List Fragment) :=
  if chunkCount message > fragmentIndexMask + 1 then .error .tooManyFragments
  else if message = [] then
    .ok [{ header := { sentTimestamp, echoedTimestamp, stateId, index := 0, isFinal := true }
           body := [] }]
  else
    (chunks maxFragmentBodyBytes message).zipIdx.mapM fun (body, index) =>
      if index < 2 ^ 16 then
        .ok { header := { sentTimestamp, echoedTimestamp, stateId, index,
                          isFinal := index + 1 = chunkCount message }
              body }
      else .error .tooManyFragments

def encode (f : Fragment) : Bytes :=
  u16ToBeBytes f.header.sentTimestamp ++ u16ToBeBytes f.header.echoedTimestamp ++
    u64ToBeBytes f.header.stateId ++
    beBytes 2 (f.header.index % finalFragmentBit + if f.header.isFinal then finalFragmentBit else 0) ++
    f.body

end Fragment

/-- Bounded accumulator for one state identifier, tolerant of packet reordering. -/
structure FragmentAccumulator where
  stateId : UInt64
  maximumMessageBytes : Nat
  fragments : Std.ExtTreeMap Nat Bytes
  finalIndex : Option Nat
  totalBytes : Nat

namespace FragmentAccumulator

def new (stateId : UInt64) (maximumMessageBytes : Nat) : FragmentAccumulator where
  stateId
  maximumMessageBytes
  fragments := ∅
  finalIndex := none
  totalBytes := 0

/-- The message, once a final fragment and every earlier one are held. -/
def tryComplete (a : FragmentAccumulator) : Except FragmentError (Option Bytes) :=
  match a.finalIndex with
  | none => .ok none
  | some finalIndex =>
    if a.fragments.size ≠ finalIndex + 1 then .ok none
    else
      match (List.range (finalIndex + 1)).mapM (fun index => a.fragments[index]?) with
      | none => .error .missingFragment
      | some bodies => .ok (some bodies.flatten)

/-- Holds a body under an index that is still free. -/
def store (a : FragmentAccumulator) (index : Nat) (body : Bytes) :
    FragmentAccumulator × Except FragmentError (Option Bytes) :=
  match checkedAdd a.totalBytes body.length with
  | none => (a, .error .messageTooLarge)
  | some totalBytes =>
    let a := { a with totalBytes }
    if totalBytes > a.maximumMessageBytes then (a, .error .messageTooLarge)
    else
      let a := { a with fragments := a.fragments.insert index body }
      (a, a.tryComplete)

/-- Adds one authenticated fragment and returns a complete message once ready. -/
def push (a : FragmentAccumulator) (f : Fragment) :
    FragmentAccumulator × Except FragmentError (Option Bytes) :=
  if f.header.stateId ≠ a.stateId then (a, .error .mismatchedState)
  else if a.finalIndex.any (fun finalIndex => finalIndex < f.header.index) then
    (a, .error .indexAfterFinal)
  else if f.header.isFinal && a.finalIndex.any (fun finalIndex => finalIndex ≠ f.header.index) then
    (a, .error .conflictingFinalIndex)
  else if f.header.isFinal && a.fragments.keys.any (fun index => f.header.index < index) then
    (a, .error .indexAfterFinal)
  else
    let a := if f.header.isFinal then { a with finalIndex := some f.header.index } else a
    match a.fragments[f.header.index]? with
    | some existing =>
      if existing = f.body then (a, a.tryComplete) else (a, .error .conflictingDuplicate)
    | none => a.store f.header.index f.body

end FragmentAccumulator

/-! ## Chunks -/

theorem divCeil_maxFragmentBodyBytes (len : Nat) :
    divCeil len maxFragmentBodyBytes = (len + 1213) / 1214 := by
  rw [divCeil, maxFragmentBodyBytes, show len + 1214 - 1 = len + 1213 by omega]

theorem Fragment.chunkCount_pos (message : Bytes) : 0 < Fragment.chunkCount message := by
  rw [Fragment.chunkCount, divCeil_maxFragmentBodyBytes]
  omega

/-- Joining the pieces of a prefix gives that prefix. -/
theorem flatten_chunkAt (size : Nat) (message : Bytes) : ∀ n : Nat,
    ((List.range n).map (chunkAt size message)).flatten = message.take (n * size)
  | 0 => by simp
  | n + 1 => by
    rw [List.range_succ, List.map_append, List.flatten_append, flatten_chunkAt size message n]
    simp only [List.map_cons, List.map_nil, List.flatten_cons, List.flatten_nil, List.append_nil,
      chunkAt]
    rw [Nat.succ_mul, List.take_add]

/-- **The bodies of a message's fragments join up to the message.** -/
theorem Fragment.flatten_chunks (message : Bytes) :
    ((List.range (Fragment.chunkCount message)).map
      (chunkAt maxFragmentBodyBytes message)).flatten = message := by
  rw [flatten_chunkAt, List.take_of_length_le]
  rw [Fragment.chunkCount, divCeil_maxFragmentBodyBytes, maxFragmentBodyBytes]
  omega

/-! ## Splitting -/

/-- The fragment at position `i` of a message. -/
def Fragment.fragmentAt (message : Bytes) (sentTimestamp echoedTimestamp : UInt16)
    (stateId : UInt64) (i : Nat) : Fragment where
  header := { sentTimestamp, echoedTimestamp, stateId, index := i,
              isFinal := i + 1 = Fragment.chunkCount message }
  body := chunkAt maxFragmentBodyBytes message i

theorem Fragment.isFinal_fragmentAt (message : Bytes) (sent echoed : UInt16) (stateId : UInt64)
    (i : Nat) : (Fragment.fragmentAt message sent echoed stateId i).header.isFinal =
      decide (i + 1 = Fragment.chunkCount message) := rfl

/-- `mapM` with a function that never fails is `map`. -/
theorem mapM_eq_ok {α β ε : Type} {f : α → Except ε β} {g : α → β} :
    ∀ {l : List α}, (∀ x ∈ l, f x = .ok (g x)) → l.mapM f = .ok (l.map g)
  | [], _ => rfl
  | x :: xs, h => by
    rw [List.mapM_cons, h x List.mem_cons_self,
      mapM_eq_ok (fun y hy => h y (List.mem_cons_of_mem _ hy))]
    rfl

/-- What `split` returns, in closed form. -/
theorem Fragment.split_eq (message : Bytes) (sent echoed : UInt16) (stateId : UInt64) :
    Fragment.split message sent echoed stateId =
      if Fragment.chunkCount message ≤ 2 ^ 15 then
        .ok ((List.range (Fragment.chunkCount message)).map
          (Fragment.fragmentAt message sent echoed stateId))
      else .error .tooManyFragments := by
  unfold Fragment.split
  by_cases hle : Fragment.chunkCount message ≤ 2 ^ 15
  · have hmask : ¬ Fragment.chunkCount message > fragmentIndexMask + 1 := by
      simp only [fragmentIndexMask, finalFragmentBit]; omega
    rw [if_neg hmask, if_pos hle]
    by_cases hnil : message = []
    · subst hnil
      rw [if_pos rfl]
      rfl
    · rw [if_neg hnil]
      have hlen : 0 < message.length := List.length_pos_iff.mpr hnil
      have hcount : divCeil message.length maxFragmentBodyBytes = Fragment.chunkCount message := by
        rw [Fragment.chunkCount, Nat.max_eq_left hlen]
      have hzip : (chunks maxFragmentBodyBytes message).zipIdx =
          (List.range (Fragment.chunkCount message)).map
            (fun i => (chunkAt maxFragmentBodyBytes message i, i)) := by
        apply List.ext_getElem
        · simp [chunks, hcount]
        · intro i h₁ h₂
          simp [chunks]
      rw [hzip, mapM_eq_ok (g := fun p => Fragment.mk
        { sentTimestamp := sent, echoedTimestamp := echoed, stateId, index := p.2,
          isFinal := p.2 + 1 = Fragment.chunkCount message } p.1)]
      · simp [Fragment.fragmentAt]
      · intro p hp
        obtain ⟨i, hi, rfl⟩ := List.mem_map.mp hp
        have hlt : i < Fragment.chunkCount message := List.mem_range.mp hi
        dsimp only
        rw [if_pos (by omega)]
  · have hmask : Fragment.chunkCount message > fragmentIndexMask + 1 := by
      simp only [fragmentIndexMask, finalFragmentBit]; omega
    rw [if_pos hmask, if_neg hle]

theorem Fragment.mem_split {message : Bytes} {sent echoed : UInt16} {stateId : UInt64}
    {fs : List Fragment} (h : Fragment.split message sent echoed stateId = .ok fs) {f : Fragment} :
    f ∈ fs ↔ ∃ i < Fragment.chunkCount message,
      f = Fragment.fragmentAt message sent echoed stateId i := by
  rw [Fragment.split_eq] at h
  split at h
  · simp only [Except.ok.injEq] at h
    subst h
    simp only [List.mem_map, List.mem_range]
    exact ⟨fun ⟨i, hi, he⟩ => ⟨i, hi, he.symm⟩, fun ⟨i, hi, he⟩ => ⟨i, hi, he.symm⟩⟩
  · simp at h

/-! ## Encoding a fragment -/

/-- **A fragment is read back from its bytes.** -/
theorem Fragment.parse_encode {f : Fragment} (hindex : f.header.index < finalFragmentBit)
    (hbody : f.body.length ≤ maxReceivedFragmentBodyBytes) :
    Fragment.parse f.encode = .ok f := by
  obtain ⟨⟨sent, echoed, stateId, index, isFinal⟩, body⟩ := f
  simp only at hindex hbody
  generalize hword : index % finalFragmentBit + (if isFinal then finalFragmentBit else 0) = word
  have hwordlt : word < 256 ^ 2 := by
    rw [← hword]
    simp only [finalFragmentBit] at hindex ⊢
    split <;> omega
  have hencode : Fragment.encode ⟨⟨sent, echoed, stateId, index, isFinal⟩, body⟩ =
      u16ToBeBytes sent ++ (u16ToBeBytes echoed ++ (u64ToBeBytes stateId ++
        (beBytes 2 word ++ body))) := by
    simp [Fragment.encode, hword]
  have h0 : (u16ToBeBytes sent).length = 2 := length_u16ToBeBytes _
  have h1 : (u16ToBeBytes echoed).length = 2 := length_u16ToBeBytes _
  have h2 : (u64ToBeBytes stateId).length = 8 := length_u64ToBeBytes _
  have h3 : (beBytes 2 word).length = 2 := length_beBytes _ _
  rw [hencode]
  unfold Fragment.parse
  rw [if_neg (by simp [fragmentHeaderBytes]; omega)]
  have hd2 : (u16ToBeBytes sent ++ (u16ToBeBytes echoed ++ (u64ToBeBytes stateId ++
      (beBytes 2 word ++ body)))).drop 2 = u16ToBeBytes echoed ++ (u64ToBeBytes stateId ++
        (beBytes 2 word ++ body)) := List.drop_left' h0
  have hd4 : (u16ToBeBytes sent ++ (u16ToBeBytes echoed ++ (u64ToBeBytes stateId ++
      (beBytes 2 word ++ body)))).drop 4 = u64ToBeBytes stateId ++ (beBytes 2 word ++ body) := by
    rw [show (4 : Nat) = 2 + 2 from rfl, ← List.drop_drop, hd2, List.drop_left' h1]
  have hd12 : (u16ToBeBytes sent ++ (u16ToBeBytes echoed ++ (u64ToBeBytes stateId ++
      (beBytes 2 word ++ body)))).drop 12 = beBytes 2 word ++ body := by
    rw [show (12 : Nat) = 4 + 8 from rfl, ← List.drop_drop, hd4, List.drop_left' h2]
  have hd14 : (u16ToBeBytes sent ++ (u16ToBeBytes echoed ++ (u64ToBeBytes stateId ++
      (beBytes 2 word ++ body)))).drop fragmentHeaderBytes = body := by
    rw [show fragmentHeaderBytes = 12 + 2 from rfl, ← List.drop_drop, hd12, List.drop_left' h3]
  simp only [hd2, hd4, hd12, hd14, List.take_left' h0, List.take_left' h1, List.take_left' h2,
    List.take_left' h3, u16FromBeBytes_toBeBytes, u64FromBeBytes_toBeBytes, ofBeBytes_beBytes,
    Nat.mod_eq_of_lt hwordlt]
  rw [if_neg (by omega)]
  have hi : word % finalFragmentBit = index := by
    rw [← hword]
    simp only [finalFragmentBit] at hindex ⊢
    split <;> omega
  have hf : word / finalFragmentBit % 2 = 1 ↔ isFinal = true := by
    rw [← hword]
    simp only [finalFragmentBit] at hindex ⊢
    cases isFinal <;> simp
  simp [hi, hf]

theorem Fragment.parse_encode_fragmentAt {message : Bytes} {sent echoed : UInt16}
    {stateId : UInt64} {i : Nat} (hcount : Fragment.chunkCount message ≤ 2 ^ 15)
    (hi : i < Fragment.chunkCount message) :
    Fragment.parse (Fragment.fragmentAt message sent echoed stateId i).encode =
      .ok (Fragment.fragmentAt message sent echoed stateId i) := by
  apply Fragment.parse_encode
  · show i < 2 ^ 15
    omega
  · show (chunkAt maxFragmentBodyBytes message i).length ≤ 1300
    have := List.length_take_le maxFragmentBodyBytes (message.drop (i * maxFragmentBodyBytes))
    simp only [maxFragmentBodyBytes] at this
    simp only [chunkAt, maxFragmentBodyBytes]
    omega

end OxideTerm.Fernomade
