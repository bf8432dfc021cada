import OxideTerm.Tmux.Fields

/-!
# What panes print

Output of panes and values of subscriptions, from the lines that the server writes for them. What
stands in front of the payload may grow with later servers, as fields before a colon of its own.
-/

namespace OxideTerm.Tmux

open OxideTerm.Lib

/-! ## Lines of the server -/

/-- A payload with its bytes as they are, as three octal digits or, the backslash, doubled. -/
inductive Escapes : Bytes → Bytes → Prop
  | nil : Escapes [] []
  | raw {byte : UInt8} {bytes payload : Bytes} : byte ≠ backslash → byte ≠ carriageReturn →
      byte ≠ newline → Escapes bytes payload → Escapes (byte :: bytes) (byte :: payload)
  | octal {byte : UInt8} {a b c : Nat} {bytes payload : Bytes} : a < 8 → b < 8 → c < 8 →
      byte.toNat = (a * 8 + b) * 8 + c → Escapes bytes payload →
      Escapes (byte :: bytes) (backslash :: digit a :: digit b :: digit c :: payload)
  | doubled {bytes payload : Bytes} : Escapes bytes payload →
      Escapes (backslash :: bytes) (backslash :: backslash :: payload)

/-- A field that stands before the colon. -/
structure ReservedField (field : Bytes) : Prop where
  ne_nil : field ≠ []
  space_notMem : space ∉ field
  ne_colon : field ≠ ascii ":"

/-- The reserved fields, the colon and the payload. -/
def extension : List Bytes → Bytes → Bytes
  | [], payload => ascii ": " ++ payload
  | field :: fields, payload => field ++ space :: extension fields payload

/-- A number that has 64 bits. -/
def Decimal (n : Nat) (token : Bytes) : Prop := Numeral n token ∧ n < 2 ^ 64

/-- A number behind the sign of its kind. -/
def Prefixed (first : UInt8) (n : Nat) (token : Bytes) : Prop :=
  ∃ digits, token = first :: digits ∧ Decimal n digits

/-- A value, or a dash where there is none. -/
def Optionally {α : Type} (written : α → Bytes → Prop) : Option α → Bytes → Prop
  | none, token => token = ascii "-"
  | some value, token => written value token

def outputLine (pane payload : Bytes) : Bytes := ascii "%output " ++ (pane ++ space :: payload)

def extendedOutputLine (pane age : Bytes) (fields : List Bytes) (payload : Bytes) : Bytes :=
  ascii "%extended-output " ++ (pane ++ space :: (age ++ space :: extension fields payload))

def subscriptionLine (name session window windowIndex pane : Bytes) (fields : List Bytes)
    (value : Bytes) : Bytes :=
  ascii "%subscription-changed " ++ (name ++ space :: (session ++ space :: (window ++ space ::
    (windowIndex ++ space :: (pane ++ space :: extension fields value)))))

/-- The payload ends as if it had a delimiter of its own behind it. -/
def EndsLikeDelimiter (payload : Bytes) : Prop := ascii " :" <:+ space :: payload

instance instDecidableEndsLikeDelimiter (payload : Bytes) : Decidable (EndsLikeDelimiter payload) :=
  inferInstanceAs (Decidable (_ <:+ _))

/-! ## Numbers -/

theorem Decimal.parse {n : Nat} {token : Bytes} (h : Decimal n token) :
    parseDecimal token = some n := parseDecimal_eq_some_iff.mpr h

theorem Decimal.space_notMem {n : Nat} {token : Bytes} (h : Decimal n token) : space ∉ token :=
  space_notMem_of_numeral h.1

theorem Decimal.ne_dash {n : Nat} {token : Bytes} (h : Decimal n token) : token ≠ ascii "-" := by
  rintro rfl
  exact absurd (h.1.digits 0x2d (by decide)) (by decide)

theorem Prefixed.parse {first : UInt8} {n : Nat} {token : Bytes} (h : Prefixed first n token) :
    parsePrefixedDecimal token first = some n := by
  obtain ⟨digits, rfl, hdigits⟩ := h
  rw [parsePrefixedDecimal, if_pos rfl, hdigits.parse]

theorem Prefixed.space_notMem {first : UInt8} {n : Nat} {token : Bytes}
    (h : Prefixed first n token) (hfirst : first ≠ space) : space ∉ token := by
  obtain ⟨digits, rfl, hdigits⟩ := h
  rw [List.mem_cons]
  rintro (heq | hmem)
  · exact hfirst heq.symm
  · exact hdigits.space_notMem hmem

theorem Prefixed.ne_dash {first : UInt8} {n : Nat} {token : Bytes} (h : Prefixed first n token) :
    token ≠ ascii "-" := by
  obtain ⟨digits, rfl, hdigits⟩ := h
  intro heq
  exact hdigits.1.ne_nil (List.cons.inj heq).2

theorem Optionally.parse {α β : Type} {written : α → Bytes → Prop} {parse : Bytes → Option β}
    {make : α → β} (hparse : ∀ value token, written value token → parse token = some (make value))
    (hdash : ∀ value token, written value token → token ≠ ascii "-")
    {value : Option α} {token : Bytes} (h : Optionally written value token) :
    parseOptional token parse = some (value.map make) := by
  cases value with
  | none =>
    obtain rfl : token = ascii "-" := h
    rfl
  | some value =>
    have hwritten : written value token := h
    rw [parseOptional, if_neg (hdash value token hwritten), hparse value token hwritten,
      Option.map_some, Option.map_some]

theorem Optionally.space_notMem {α : Type} {written : α → Bytes → Prop}
    (hspace : ∀ value token, written value token → space ∉ token)
    {value : Option α} {token : Bytes} (h : Optionally written value token) : space ∉ token := by
  cases value with
  | none =>
    obtain rfl : token = ascii "-" := h
    decide
  | some value => exact hspace value token h

/-! ## Escapes -/

/-- One digit of an octal number. -/
def octalStep (value : Nat) (digit : UInt8) : Option Nat := do
  let digit ← if 0x30 ≤ digit then some (digit - 0x30).toNat else none
  if digit ≤ 7 then some (value * 8 + digit) else none

theorem decodeOctalByte_eq (digits : Bytes) : decodeOctalByte digits =
    (digits.foldlM octalStep 0).bind fun value =>
      if value < 256 then some (UInt8.ofNat value) else none := rfl

theorem octalStep_digit {n : Nat} (h : n < 8) (value : Nat) :
    octalStep value (digit n) = some (value * 8 + n) := by
  have hn : (digit n).toNat = 48 + n := toNat_digit (by omega)
  have hle : (0x30 : UInt8) ≤ digit n := by
    rw [UInt8.le_iff_toNat_le, hn]
    exact Nat.le_add_right 48 n
  have hvalue : (digit n - 0x30).toNat = n := by
    rw [UInt8.toNat_sub_of_le _ _ hle, hn]
    exact Nat.add_sub_cancel_left 48 n
  have hseven : n ≤ 7 := Nat.le_of_lt_succ h
  unfold octalStep
  simp only [if_pos hle, Option.bind_eq_bind, Option.bind_some, hvalue, if_pos hseven]

theorem decodeOctalByte_digits {byte : UInt8} {a b c : Nat} (ha : a < 8) (hb : b < 8) (hc : c < 8)
    (hbyte : byte.toNat = (a * 8 + b) * 8 + c) :
    decodeOctalByte [digit a, digit b, digit c] = some byte := by
  have hfold : [digit a, digit b, digit c].foldlM octalStep 0 = some byte.toNat := by
    simp only [List.foldlM_cons, List.foldlM_nil, octalStep_digit ha, octalStep_digit hb,
      octalStep_digit hc, Option.bind_eq_bind, Option.bind_some, hbyte, Nat.zero_mul, Nat.zero_add]
    rfl
  rw [decodeOctalByte_eq, hfold, Option.bind_some, if_pos byte.toNat_lt, UInt8.ofNat_toNat]

theorem digit_ne_backslash {n : Nat} (h : n < 8) : digit n ≠ backslash := by
  intro heq
  have hn : (digit n).toNat = 48 + n := toNat_digit (by omega)
  rw [heq, show backslash.toNat = 92 from rfl] at hn
  omega

/-- **Undoing the escapes gives what was escaped.** -/
theorem Escapes.decode {bytes payload : Bytes} (h : Escapes bytes payload) :
    decodeOutput payload = bytes := by
  induction h with
  | nil => rfl
  | raw hbackslash _ _ _ ih =>
    unfold decodeOutput
    rw [if_pos hbackslash, ih]
  | octal ha hb hc hbyte _ ih =>
    unfold decodeOutput
    simp only [ne_eq, not_true, if_false, if_neg (digit_ne_backslash ha),
      decodeOctalByte_digits ha hb hc hbyte, ih]
  | doubled _ ih =>
    unfold decodeOutput
    simp only [ne_eq, not_true, if_false, if_true, ih]

theorem Escapes.eq_nil_iff {bytes payload : Bytes} (h : Escapes bytes payload) :
    bytes = [] ↔ payload = [] := by
  cases h <;> simp

/-! ## What stands behind the colon -/

theorem payloadAfterInnerColon_append : ∀ {front : Bytes}, space ∉ front → ∀ rest : Bytes,
    payloadAfterInnerColon (front ++ rest) = payloadAfterInnerColon rest
  | [], _, _ => rfl
  | byte :: front, h, rest => by
    obtain ⟨hbyte, hfront⟩ : space ≠ byte ∧ space ∉ front := by simpa using h
    have hstart : ¬ (ascii " : ").isPrefixOf (byte :: (front ++ rest)) = true := by
      rw [List.isPrefixOf_iff_prefix]
      intro hprefix
      exact hbyte (List.cons_prefix_cons.mp hprefix).1
    rw [List.cons_append, payloadAfterInnerColon, if_neg hstart,
      payloadAfterInnerColon_append hfront rest]

/-- A reserved field does not look like the colon. -/
theorem ReservedField.not_colon_prefix {field : Bytes} (h : ReservedField field) (rest : Bytes) :
    ¬ ascii ": " <+: field ++ space :: rest := by
  obtain ⟨hne, hspace, hcolon⟩ := h
  match field with
  | [] => exact absurd rfl hne
  | [byte] =>
    intro hprefix
    exact hcolon (congrArg (fun byte => [byte]) (List.cons_prefix_cons.mp hprefix).1.symm)
  | byte :: second :: field =>
    intro hprefix
    have hsecond := (List.cons_prefix_cons.mp (List.cons_prefix_cons.mp hprefix).2).1
    exact hspace (by rw [show space = second from hsecond]; simp)

theorem payloadAfterInnerColon_extension (payload : Bytes) : ∀ {fields : List Bytes},
    (∀ field ∈ fields, ReservedField field) →
      payloadAfterInnerColon (space :: extension fields payload) = some payload
  | [], _ => rfl
  | field :: fields, h => by
    obtain ⟨hfield, hfields⟩ := List.forall_mem_cons.mp h
    have hstart : ¬ (ascii " : ").isPrefixOf (space :: extension (field :: fields) payload) = true := by
      rw [List.isPrefixOf_iff_prefix]
      intro hprefix
      exact hfield.not_colon_prefix _ (List.cons_prefix_cons.mp hprefix).2
    rw [payloadAfterInnerColon, if_neg hstart, extension,
      payloadAfterInnerColon_append hfield.space_notMem,
      payloadAfterInnerColon_extension payload hfields]

theorem extension_eq_append (payload : Bytes) : ∀ fields : List Bytes,
    ∃ front, extension fields payload = front ++ (ascii ":" ++ space :: payload)
  | [] => ⟨[], rfl⟩
  | field :: fields => by
    obtain ⟨front, hfront⟩ := extension_eq_append payload fields
    exact ⟨field ++ space :: front, by rw [extension, hfront]; simp⟩

theorem isSuffixOf_extension (fields : List Bytes) (payload : Bytes) :
    (ascii " :").isSuffixOf (extension fields payload) = true ↔ EndsLikeDelimiter payload := by
  rw [List.isSuffixOf_iff_suffix, EndsLikeDelimiter]
  obtain ⟨front, hfront⟩ := extension_eq_append payload fields
  rw [hfront, ← List.append_assoc]
  constructor
  · intro hsuffix
    cases payload with
    | nil =>
      -- The last byte is a space, not a colon.
      obtain ⟨before, hbefore⟩ := hsuffix
      have hlast := congrArg List.getLast? hbefore
      rw [List.getLast?_append, List.getLast?_append] at hlast
      have hcolon : (ascii " :").getLast? = some 0x3a := by decide
      rw [hcolon] at hlast
      have heq : (0x3a : UInt8) = space := Option.some.inj hlast
      exact absurd heq (by decide)
    | cons byte payload =>
      exact List.suffix_of_suffix_length_le hsuffix (List.suffix_append _ _) (by simp [ascii])
  · exact fun hsuffix => hsuffix.trans (List.suffix_append _ _)

/-- **What is taken for the payload**, by whether there are reserved fields. -/
theorem payloadAfterColon_extension {fields : List Bytes}
    (hfields : ∀ field ∈ fields, ReservedField field) (payload : Bytes) :
    payloadAfterColon (extension fields payload) =
      if fields ≠ [] ∧ EndsLikeDelimiter payload then some [] else some payload := by
  cases fields with
  | nil =>
    rw [if_neg (by simp)]
    rfl
  | cons field fields =>
    obtain ⟨hfield, -⟩ := List.forall_mem_cons.mp hfields
    have hcolon : extension (field :: fields) payload ≠ ascii ":" := by
      intro heq
      have hspace : space ∈ ascii ":" := by
        rw [← heq, extension]
        simp
      exact absurd hspace (by decide)
    have hstart : ¬ (ascii ": ").isPrefixOf (extension (field :: fields) payload) = true := by
      rw [List.isPrefixOf_iff_prefix]
      exact hfield.not_colon_prefix _
    rw [payloadAfterColon, if_neg hcolon, if_neg hstart]
    simp only [isSuffixOf_extension]
    by_cases hend : EndsLikeDelimiter payload
    · rw [if_pos hend, if_pos ⟨by simp, hend⟩]
    · have hinner := payloadAfterInnerColon_extension payload hfields
      have hnot : ¬ (field :: fields ≠ [] ∧ EndsLikeDelimiter payload) := fun h => hend h.2
      rw [payloadAfterInnerColon, if_neg] at hinner
      · rw [if_neg hend, if_neg hnot, hinner]
      · rw [List.isPrefixOf_iff_prefix]
        intro hprefix
        exact hfield.not_colon_prefix _ (List.cons_prefix_cons.mp hprefix).2

/-! ## Lines of an idle parser -/

theorem parseGuard_eq_none {kind : Bytes} (hspace : space ∉ kind) (hbegin : kind ≠ ascii "%begin")
    (hend : kind ≠ ascii "%end") (herror : kind ≠ ascii "%error") (rest : Bytes) :
    parseGuard (kind ++ space :: rest) = none := by
  have hsplit : (kind ++ space :: rest).splitOn space = kind :: rest.splitOn space :=
    List.splitOnP_append_cons_of_forall_mem
      (fun byte hbyte => beq_false_of_ne (ne_of_mem_of_not_mem hbyte hspace)) _ (by simp) _
  rw [parseGuard, hsplit]
  split
  · next heq =>
    obtain ⟨rfl, -⟩ := List.cons.inj heq
    rw [if_neg hbegin, if_neg hend, if_neg herror]
    rfl
  · rfl

theorem parseLine_notification {parser : ControlParser} (hidle : parser.openCommand = none)
    {name : Bytes} (hspace : space ∉ name) (hbegin : name ≠ ascii "begin")
    (hend : name ≠ ascii "end") (herror : name ≠ ascii "error") (arguments : Bytes) :
    parser.parseLine (0x25 :: (name ++ space :: arguments)) =
      (parser, .notification ((parseNamed name arguments).getD (.other name arguments))) := by
  have hkind : space ∉ (0x25 : UInt8) :: name := by
    rw [List.mem_cons, not_or]
    exact ⟨by decide, hspace⟩
  have hguard : parseGuard (0x25 :: (name ++ space :: arguments)) = none :=
    parseGuard_eq_none hkind (fun h => hbegin (List.cons.inj h).2)
      (fun h => hend (List.cons.inj h).2) (fun h => herror (List.cons.inj h).2) arguments
  rw [ControlParser.parseLine, hidle]
  simp only [hguard, parseNotification, if_true, splitOnce_append hspace]

theorem parseLine_outputLine {parser : ControlParser} (hidle : parser.openCommand = none)
    {pane : Nat} {token bytes payload : Bytes} (htoken : Prefixed 0x25 pane token)
    (hpayload : Escapes bytes payload) :
    parser.parseLine (outputLine token payload) = (parser, .notification (.output ⟨pane⟩ bytes)) := by
  have hparse : parseOutput (token ++ space :: payload) = some (.output ⟨pane⟩ bytes) := by
    rw [parseOutput, splitOnce_append (htoken.space_notMem (by decide))]
    simp only [PaneId.parse, htoken.parse, hpayload.decode]
    rfl
  have hline := @parseLine_notification parser hidle (ascii "output") (by decide) (by decide)
    (by decide) (by decide) (token ++ space :: payload)
  rw [show parseNamed (ascii "output") = parseOutput from rfl, hparse] at hline
  exact hline

theorem parseLine_extendedOutputLine {parser : ControlParser} (hidle : parser.openCommand = none)
    {fields : List Bytes} (hfields : ∀ field ∈ fields, ReservedField field) {pane age : Nat}
    {token ageToken : Bytes} (htoken : Prefixed 0x25 pane token) (hage : Decimal age ageToken)
    (payload : Bytes) :
    parser.parseLine (extendedOutputLine token ageToken fields payload) =
      (parser, .notification (.extendedOutput ⟨pane⟩ age (decodeOutput
        (if fields ≠ [] ∧ EndsLikeDelimiter payload then [] else payload)))) := by
  have hparse : parseExtendedOutput
      (token ++ space :: (ageToken ++ space :: extension fields payload)) =
        some (.extendedOutput ⟨pane⟩ age (decodeOutput
          (if fields ≠ [] ∧ EndsLikeDelimiter payload then [] else payload))) := by
    rw [parseExtendedOutput, splitOnce_append (htoken.space_notMem (by decide))]
    simp only [splitOnce_append hage.space_notMem, PaneId.parse, htoken.parse, hage.parse,
      payloadAfterColon_extension hfields]
    split <;> rfl
  have hline := @parseLine_notification parser hidle (ascii "extended-output") (by decide)
    (by decide) (by decide) (by decide)
    (token ++ space :: (ageToken ++ space :: extension fields payload))
  rw [show parseNamed (ascii "extended-output") = parseExtendedOutput from rfl, hparse] at hline
  exact hline

theorem parseLine_subscriptionLine {parser : ControlParser} (hidle : parser.openCommand = none)
    {fields : List Bytes} (hfields : ∀ field ∈ fields, ReservedField field) {name : Bytes}
    (hname : space ∉ name) {session : Nat} {window windowIndex pane : Option Nat}
    {sessionToken windowToken indexToken paneToken : Bytes}
    (hsession : Prefixed 0x24 session sessionToken)
    (hwindow : Optionally (Prefixed 0x40) window windowToken)
    (hindex : Optionally Decimal windowIndex indexToken)
    (hpane : Optionally (Prefixed 0x25) pane paneToken) (value : Bytes) :
    parser.parseLine
        (subscriptionLine name sessionToken windowToken indexToken paneToken fields value) =
      (parser, .notification (.subscriptionChanged name ⟨session⟩ (window.map .mk) windowIndex
        (pane.map .mk) (if fields ≠ [] ∧ EndsLikeDelimiter value then [] else value))) := by
  have hwindowParse : parseOptional windowToken WindowId.parse = some (window.map .mk) :=
    hwindow.parse (fun _ _ h => by rw [WindowId.parse, h.parse, Option.map_some])
      fun _ _ h => h.ne_dash
  have hindexParse : parseOptional indexToken parseDecimal = some windowIndex := by
    have hmap : parseOptional indexToken parseDecimal = some (windowIndex.map id) :=
      hindex.parse (fun _ _ h => h.parse) fun _ _ h => h.ne_dash
    rwa [Option.map_id_fun, id] at hmap
  have hpaneParse : parseOptional paneToken PaneId.parse = some (pane.map .mk) :=
    hpane.parse (fun _ _ h => by rw [PaneId.parse, h.parse, Option.map_some])
      fun _ _ h => h.ne_dash
  have hparse : parseSubscription (name ++ space :: (sessionToken ++ space :: (windowToken ++
      space :: (indexToken ++ space :: (paneToken ++ space :: extension fields value))))) =
        some (.subscriptionChanged name ⟨session⟩ (window.map .mk) windowIndex (pane.map .mk)
          (if fields ≠ [] ∧ EndsLikeDelimiter value then [] else value)) := by
    rw [parseSubscription, splitOnce_append hname]
    simp only [splitOnce_append (hsession.space_notMem (by decide)),
      splitOnce_append (hwindow.space_notMem fun _ _ h => h.space_notMem (by decide)),
      splitOnce_append (hindex.space_notMem fun _ _ h => h.space_notMem),
      splitOnce_append (hpane.space_notMem fun _ _ h => h.space_notMem (by decide)),
      SessionId.parse, hsession.parse, hwindowParse, hindexParse, hpaneParse,
      payloadAfterColon_extension hfields]
    split <;> rfl
  have hline := @parseLine_notification parser hidle (ascii "subscription-changed") (by decide)
    (by decide) (by decide) (by decide) (name ++ space :: (sessionToken ++ space :: (windowToken ++
      space :: (indexToken ++ space :: (paneToken ++ space :: extension fields value)))))
  rw [show parseNamed (ascii "subscription-changed") = parseSubscription from rfl, hparse] at hline
  exact hline

/-! ## Main result -/

theorem EndsLikeDelimiter.ne_nil {payload : Bytes} (h : EndsLikeDelimiter payload) :
    payload ≠ [] := by
  rintro rfl
  exact absurd h (by decide)

/-- **Payloads arrive exactly, except those that end like a delimiter behind reserved fields.** -/
theorem payload_arrives_iff {parser : ControlParser} (hidle : parser.openCommand = none)
    {fields : List Bytes} (hfields : ∀ field ∈ fields, ReservedField field) :
    (∀ (pane : Nat) (token bytes payload : Bytes), Prefixed 0x25 pane token →
      Escapes bytes payload →
        parser.parseLine (outputLine token payload) =
          (parser, .notification (.output ⟨pane⟩ bytes))) ∧
    (∀ (pane age : Nat) (token ageToken bytes payload : Bytes), Prefixed 0x25 pane token →
      Decimal age ageToken → Escapes bytes payload →
        (parser.parseLine (extendedOutputLine token ageToken fields payload) =
            (parser, .notification (.extendedOutput ⟨pane⟩ age bytes)) ↔
          fields = [] ∨ ¬ EndsLikeDelimiter payload)) ∧
    (∀ (session : Nat) (window windowIndex pane : Option Nat)
      (name sessionToken windowToken indexToken paneToken value : Bytes), space ∉ name →
      Prefixed 0x24 session sessionToken → Optionally (Prefixed 0x40) window windowToken →
      Optionally Decimal windowIndex indexToken → Optionally (Prefixed 0x25) pane paneToken →
        (parser.parseLine
            (subscriptionLine name sessionToken windowToken indexToken paneToken fields value) =
            (parser, .notification (.subscriptionChanged name ⟨session⟩ (window.map .mk) windowIndex
              (pane.map .mk) value)) ↔
          fields = [] ∨ ¬ EndsLikeDelimiter value)) := by
  refine ⟨?_, ?_, ?_⟩
  · intro pane token bytes payload htoken hpayload
    exact parseLine_outputLine hidle htoken hpayload
  · intro pane age token ageToken bytes payload htoken hage hpayload
    rw [parseLine_extendedOutputLine hidle hfields htoken hage]
    split
    · next hlost =>
      refine iff_of_false ?_ (fun h => h.elim hlost.1 fun hnot => hnot hlost.2)
      intro heq
      -- What was lost is the whole payload.
      injection heq with _ hevent
      injection hevent with hnotification
      injection hnotification with _ _ hbytes
      exact hlost.2.ne_nil (hpayload.eq_nil_iff.mp hbytes.symm)
    · next hkept =>
      refine iff_of_true (by rw [hpayload.decode]) ?_
      by_cases hnil : fields = []
      · exact Or.inl hnil
      · exact Or.inr fun hend => hkept ⟨hnil, hend⟩
  · intro session window windowIndex pane name sessionToken windowToken indexToken paneToken value
      hname hsession hwindow hindex hpane
    rw [parseLine_subscriptionLine hidle hfields hname hsession hwindow hindex hpane]
    split
    · next hlost =>
      refine iff_of_false ?_ (fun h => h.elim hlost.1 fun hnot => hnot hlost.2)
      intro heq
      injection heq with _ hevent
      injection hevent with hnotification
      injection hnotification with _ _ _ _ _ hvalue
      exact hlost.2.ne_nil hvalue.symm
    · next hkept =>
      refine iff_of_true rfl ?_
      by_cases hnil : fields = []
      · exact Or.inl hnil
      · exact Or.inr fun hend => hkept ⟨hnil, hend⟩

theorem reservedField_future : ReservedField (ascii "future") :=
  ⟨by decide, by decide, by decide⟩

theorem payload_arrives_iff_inner : ControlParser.new.parseLine
    (extendedOutputLine (ascii "%1") (ascii "40") [ascii "future"] [backslash, backslash]) =
      (ControlParser.new, .notification (.extendedOutput ⟨1⟩ 40 [backslash])) := by
  have hfields : ∀ field ∈ [ascii "future"], ReservedField field := by
    intro field hfield
    rw [List.mem_singleton.mp hfield]
    exact reservedField_future
  have hone : Decimal 1 (ascii "1") := ⟨numeral_of_all (by decide) rfl rfl, by decide⟩
  have hforty : Decimal 40 (ascii "40") := ⟨numeral_of_all (by decide) rfl rfl, by decide⟩
  have hiff := (payload_arrives_iff rfl hfields).2.1 1 40 (ascii "%1") (ascii "40") [backslash]
    [backslash, backslash] ⟨ascii "1", rfl, hone⟩ hforty (.doubled .nil)
  exact hiff.mpr (Or.inr (by decide))

/-- The payload `a :` behind a reserved field is lost. -/
theorem delimiter_payload_lost :
    Escapes (ascii "a :") (ascii "a :") ∧ ReservedField (ascii "future") ∧
      Prefixed 0x25 1 (ascii "%1") ∧ Decimal 0 (ascii "0") ∧
      ControlParser.new.parseLine
          (extendedOutputLine (ascii "%1") (ascii "0") [ascii "future"] (ascii "a :")) =
        (ControlParser.new, .notification (.extendedOutput ⟨1⟩ 0 [])) := by
  have hpayload : Escapes (ascii "a :") (ascii "a :") :=
    .raw (by decide) (by decide) (by decide) (.raw (by decide) (by decide) (by decide)
      (.raw (by decide) (by decide) (by decide) .nil))
  have hone : Decimal 1 (ascii "1") := ⟨numeral_of_all (by decide) rfl rfl, by decide⟩
  exact ⟨hpayload, reservedField_future, ⟨ascii "1", rfl, hone⟩,
    ⟨numeral_of_all (by decide) rfl rfl, by decide⟩, by decide +kernel⟩

end OxideTerm.Tmux
