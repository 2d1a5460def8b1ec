import Zipc.Lines

/-! # Numbers of a topology text

`topology_parse_u64` reads a number with `strtoull`, which takes white space and a sign in front of
the digits, negates modulo 2⁶⁴ behind a minus sign, and answers `ULLONG_MAX` for what is too large.
The sign is never looked at, and neither is the range error. A value without them is read exactly.
-/

namespace Zipc

open Trim

/-- The unsigned integer literals of C without a suffix, with their values. -/
inductive Literal : CString → Nat → Prop where
  | decimal {d : Char} {ds : CString} : d ≠ '0' → (∀ c ∈ d :: ds, isDigit 10 c = true) →
      Literal (d :: ds) (digitsValue 10 (d :: ds))
  | octal {ds : CString} : (∀ c ∈ ds, isDigit 8 c = true) →
      Literal ('0' :: ds) (digitsValue 8 ('0' :: ds))
  | hexadecimal {x : Char} {ds : CString} : x = 'x' ∨ x = 'X' → ds ≠ [] →
      (∀ c ∈ ds, isDigit 16 c = true) → Literal ('0' :: x :: ds) (digitsValue 16 ds)

/-- What stands behind white space and a sign, and whether the sign is a minus. -/
def unsigned (s : CString) : Bool × CString := takeSign (s.dropWhile isSpace)

/-- The value of `strtoull` for the digits behind the sign. -/
def convert (negative : Bool) (v : Nat) : Nat :=
  if v ≥ 2 ^ 64 then 2 ^ 64 - 1 else if negative then (2 ^ 64 - v) % 2 ^ 64 else v

/-- The string is no number behind white space and a sign; or it has neither, and the number is
not saturated into the range; or it has one, and the range test refuses what `strtoull` makes of
it. -/
def Faithful (limit : Nat) (s : CString) : Prop :=
  ∀ v, Literal (unsigned s).2 v →
    if (unsigned s).2 = s then v < 2 ^ 64 ∨ limit < 2 ^ 64 - 1
    else if (unsigned s).1 = true then
      v ≠ 0 ∧ v + limit < 2 ^ 64 ∨ 2 ^ 64 ≤ v ∧ limit < 2 ^ 64 - 1
    else limit < v ∧ limit < 2 ^ 64 - 1

/-! ## Literals -/

section Literals

variable {u s : CString} {v n : Nat} {c : Char}

theorem selectBase_other {d : Char} {ds : CString} (other : d ≠ '0') :
    selectBase (d :: ds) = (10, d :: ds) := by
  unfold selectBase
  split
  · rename_i same
    cases same
    exact absurd rfl other
  · rename_i same
    cases same
    exact absurd rfl other
  · rfl

theorem selectBase_octal {ds : CString} (plain : ∀ x d rest, ds = x :: d :: rest →
    ¬((x = 'x' ∨ x = 'X') ∧ isDigit 16 d = true)) : selectBase ('0' :: ds) = (8, '0' :: ds) := by
  rcases ds with _ | ⟨x, _ | ⟨d, rest⟩⟩
  · rfl
  · rfl
  · rw [selectBase, if_neg (plain x d rest rfl)]

theorem digit_plain (digit : isDigit 16 c = true) : isSpace c = false ∧ c ≠ '-' ∧ c ≠ '+' := by
  refine ⟨?_, ?_, ?_⟩
  · by_contra space
    simp only [isSpace, isBlank, Bool.or_eq_true, decide_eq_true_eq, Bool.not_eq_false] at space
    rcases space with ((((rfl | rfl) | rfl) | rfl) | rfl) | rfl <;> revert digit <;> decide
  · rintro rfl
    revert digit
    decide
  · rintro rfl
    revert digit
    decide

theorem isDigit_mono {base base' : Nat} (le : base ≤ base') (digit : isDigit base c = true) :
    isDigit base' c = true := by
  unfold isDigit at *
  cases value : digitValue c with
  | none => simp [value] at digit
  | some v =>
    simp only [value, Option.any_some, decide_eq_true_eq] at *
    omega

/-- A literal is a string whose selected base has digits only. -/
theorem literal_iff : Literal u v ↔ (selectBase u).2 ≠ [] ∧
    (∀ c ∈ (selectBase u).2, isDigit (selectBase u).1 c = true) ∧
      v = digitsValue (selectBase u).1 (selectBase u).2 := by
  constructor
  · intro literal
    cases literal with
    | decimal other digits =>
      rw [selectBase_other other]
      exact ⟨List.cons_ne_nil _ _, digits, rfl⟩
    | @octal ds digits =>
      have base : selectBase ('0' :: ds) = (8, '0' :: ds) := by
        apply selectBase_octal
        rintro x d rest rfl ⟨rfl | rfl, -⟩
        · exact absurd (digits _ List.mem_cons_self) (by decide)
        · exact absurd (digits _ List.mem_cons_self) (by decide)
      rw [base]
      exact ⟨List.cons_ne_nil _ _, List.forall_mem_cons.mpr ⟨rfl, digits⟩, rfl⟩
    | @hexadecimal x ds isX some digits =>
      cases ds with
      | nil => exact absurd rfl some
      | cons d rest =>
        rw [selectBase, if_pos ⟨isX, digits d List.mem_cons_self⟩]
        exact ⟨some, digits, rfl⟩
  · rintro ⟨some, digits, rfl⟩
    -- the string selects its base by the prefix that its literal has
    fun_cases selectBase u with
    | case1 x d rest hex =>
      have base : selectBase ('0' :: x :: d :: rest) = (16, d :: rest) := if_pos hex
      rw [base] at digits
      exact .hexadecimal hex.1 (List.cons_ne_nil _ _) digits
    | case2 x d rest hex =>
      have base : selectBase ('0' :: x :: d :: rest) = (8, '0' :: x :: d :: rest) := if_neg hex
      rw [base] at digits
      exact .octal (List.forall_mem_cons.mp digits).2
    | case3 rest short =>
      have base : selectBase ('0' :: rest) = (8, '0' :: rest) :=
        selectBase_octal fun x d rest' same => absurd same (short x d rest')
      rw [base] at digits
      exact .octal (List.forall_mem_cons.mp digits).2
    | case4 u _ other =>
      cases u with
      | nil => exact absurd rfl some
      | cons d ds =>
        have first : d ≠ '0' := by
          rintro rfl
          exact other ds rfl
        rw [selectBase_other first] at digits
        exact .decimal first digits

theorem Literal.functional (first : Literal u v) (second : Literal u n) : v = n := by
  rw [(literal_iff.mp first).2.2, (literal_iff.mp second).2.2]

/-- A literal has neither white space nor a sign in front. -/
theorem Literal.unsigned (literal : Literal s v) : unsigned s = (false, s) := by
  have digit : ∃ d ds, s = d :: ds ∧ isDigit 16 d = true := by
    cases literal with
    | decimal other digits =>
      exact ⟨_, _, rfl, isDigit_mono (by decide) (digits _ List.mem_cons_self)⟩
    | octal digits => exact ⟨_, _, rfl, by decide⟩
    | hexadecimal isX some digits => exact ⟨_, _, rfl, by decide⟩
  obtain ⟨d, ds, rfl, digit⟩ := digit
  obtain ⟨space, minus, plus⟩ := digit_plain digit
  rw [Zipc.unsigned, List.dropWhile_cons_of_neg (by simp [space])]
  unfold takeSign
  split
  · rename_i same
    cases same
    exact absurd rfl minus
  · rename_i same
    cases same
    exact absurd rfl plus
  · rfl

/-! ## `strtoull` -/

theorem selectBase_suffix (u : CString) : (selectBase u).2 <:+ u := by
  fun_cases selectBase u with
  | case1 x d rest hex => exact ⟨['0', x], rfl⟩
  | case2 x d rest hex => exact List.suffix_rfl
  | case3 rest short => exact List.suffix_rfl
  | case4 u _ other => exact List.suffix_rfl

theorem takeSign_suffix (s : CString) : (takeSign s).2 <:+ s := by
  unfold takeSign
  split
  · exact List.suffix_cons _ _
  · exact List.suffix_cons _ _
  · exact List.suffix_rfl

/-- Behind the digits of a trimmed string there is nothing but an error. -/
theorem rest_empty (bare : Bare isBlank s) {rest : CString} (behind : rest <:+ s) :
    topologyTrim rest = [] ↔ rest = [] := by
  constructor
  · intro blank
    rcases dropWhile_cases isBlank rest with blanks | ⟨pad, c, b, rfl, drops, stays⟩
    · by_contra some
      obtain ⟨front, whole⟩ := behind
      have last : s.getLast? = rest.getLast? := by
        rw [← whole, List.getLast?_append_of_ne_nil _ some]
      have ends := List.getLast?_eq_some_getLast some
      have stays := bare.right (rest.getLast some) (by rw [last, ends]; rfl)
      rw [blanks _ (List.getLast_mem some)] at stays
      cases stays
    · rw [topologyTrim_eq, trim_append_cons drops stays] at blank
      cases blank
  · rintro rfl
    rfl

/-- A trimmed string is read when there is a literal behind white space and sign, and it is read
as what `strtoull` converts the literal to. -/
theorem topologyParseU64_iff (bare : Bare isBlank s) : topologyParseU64 s = some n ↔
    ∃ v, Literal (unsigned s).2 v ∧ n = convert (unsigned s).1 v := by
  have suffix : (selectBase (unsigned s).2).2 <:+ s :=
    (selectBase_suffix _).trans ((takeSign_suffix _).trans (List.dropWhile_suffix _))
  have reads : strtoull s =
      if (selectBase (unsigned s).2).2.takeWhile (isDigit (selectBase (unsigned s).2).1) = [] then none
      else some (convert (unsigned s).1 (digitsValue (selectBase (unsigned s).2).1
          ((selectBase (unsigned s).2).2.takeWhile (isDigit (selectBase (unsigned s).2).1))),
        (selectBase (unsigned s).2).2.dropWhile (isDigit (selectBase (unsigned s).2).1)) := rfl
  simp only [literal_iff]
  generalize selectBase (unsigned s).2 = selected at *
  rcases selected with ⟨base, digits⟩
  unfold topologyParseU64
  rw [reads]
  by_cases all : ∀ c ∈ digits, isDigit base c = true
  · rw [List.takeWhile_eq_self_iff.mpr all, List.dropWhile_eq_nil_iff.mpr all]
    by_cases none : digits = []
    · simp [none]
    · have nothing : topologyTrim [] = [] := rfl
      rw [if_neg none]
      simp only [nothing, if_true]
      constructor
      · intro same
        exact ⟨_, ⟨none, all, rfl⟩, (Option.some.inj same).symm⟩
      · rintro ⟨v, ⟨-, -, rfl⟩, rfl⟩
        rfl
  · have left : digits.dropWhile (isDigit base) ≠ [] := fun empty =>
      all (List.dropWhile_eq_nil_iff.mp empty)
    have stuck : topologyTrim (digits.dropWhile (isDigit base)) ≠ [] := fun empty =>
      left ((rest_empty bare ((List.dropWhile_suffix _).trans suffix)).mp empty)
    simp only [all, false_and, and_false, exists_false, iff_false]
    split
    · rename_i value rest same
      split at same
      · cases same
      · cases same
        simp [stuck]
    · simp

theorem convert_lt (negative : Bool) (v : Nat) : convert negative v < 2 ^ 64 := by
  unfold convert
  split
  · omega
  · split <;> omega

theorem parseBounded_iff {limit : Nat} (bare : Bare isBlank s) : parseBounded limit s = some n ↔
    (∃ v, Literal (unsigned s).2 v ∧ n = convert (unsigned s).1 v) ∧ n ≤ limit := by
  rw [parseBounded, Option.filter_eq_some_iff, topologyParseU64_iff bare, decide_eq_true_eq]

/-- A value in front of which there is white space or a sign is no literal. -/
theorem not_literal (lead : (unsigned s).2 ≠ s) : ¬Literal s n := by
  intro literal
  rw [literal.unsigned] at lead
  exact lead rfl

/-- Within the limit the value of a literal is exact. -/
theorem convert_plain {limit : Nat} (exact : v < 2 ^ 64 ∨ limit < 2 ^ 64 - 1)
    (fits : convert false v ≤ limit) : convert false v = v := by
  simp only [convert, Bool.false_eq_true, if_false] at fits ⊢
  by_cases large : v ≥ 2 ^ 64
  · rw [if_pos large] at fits
    omega
  · rw [if_neg large]

/-- When the range test refuses a converted number. -/
theorem convert_refused {limit : Nat} (small : limit < 2 ^ 64) (negative : Bool) :
    limit < convert negative v ↔
      if negative = true then v ≠ 0 ∧ v + limit < 2 ^ 64 ∨ 2 ^ 64 ≤ v ∧ limit < 2 ^ 64 - 1
      else limit < v ∧ limit < 2 ^ 64 - 1 := by
  unfold convert
  cases negative with
  | true =>
    simp only [if_true]
    split
    · omega
    · omega
  | false =>
    simp only [Bool.false_eq_true, if_false]
    split
    · omega
    · omega

/-- A trimmed value is read exactly under the condition. -/
theorem parseBounded_exact {limit : Nat} (small : limit < 2 ^ 64) (bare : Bare isBlank s) :
    (∀ n, parseBounded limit s = some n ↔ Literal s n ∧ n ≤ limit) ↔ Faithful limit s := by
  simp only [parseBounded_iff bare]
  constructor
  · intro exact v literal
    split
    · rename_i plain
      rw [plain] at literal
      by_contra saturated
      rw [not_or] at saturated
      have value : convert false v = 2 ^ 64 - 1 := if_pos (by omega)
      have read := (exact (2 ^ 64 - 1)).mp
        ⟨⟨v, by rwa [plain], by rw [literal.unsigned, value]⟩, by omega⟩
      have same := literal.functional read.1
      omega
    · rename_i lead
      rw [← convert_refused small]
      by_contra accepted
      have read := (exact _).mp ⟨⟨v, literal, rfl⟩, Nat.not_lt.mp accepted⟩
      exact not_literal lead read.1
  · intro faithful n
    constructor
    · rintro ⟨⟨v, literal, rfl⟩, fits⟩
      have promised := faithful v literal
      split at promised
      · rename_i plain
        rw [plain] at literal
        rw [literal.unsigned] at fits ⊢
        have same := convert_plain promised fits
        rw [same] at fits ⊢
        exact ⟨literal, fits⟩
      · rw [← convert_refused small] at promised
        omega
    · rintro ⟨literal, fits⟩
      refine ⟨⟨n, by rwa [literal.unsigned], ?_⟩, fits⟩
      rw [literal.unsigned]
      simp only [convert, Bool.false_eq_true, if_false]
      rw [if_neg (by omega)]

end Literals

/-! ## The numeric keys -/

/-- The fields that a text sets by a number. -/
inductive NumericKey where
  | linkId | localComponent | remoteComponent | localEpoch | hopLimit | defaultDeadlineNs
  | timeoutTicks
  deriving Repr, DecidableEq

namespace NumericKey

def spellings : NumericKey → List CString
  | linkId => ["id".toList, "link_id".toList]
  | localComponent => ["local".toList, "local_component".toList]
  | remoteComponent => ["remote".toList, "remote_component".toList]
  | localEpoch => ["local_epoch".toList]
  | hopLimit => ["hop_limit".toList]
  | defaultDeadlineNs => ["default_deadline_ns".toList]
  | timeoutTicks => ["timeout_ticks".toList]

/-- The greatest value of the type of the field. -/
def limit : NumericKey → Nat
  | linkId | defaultDeadlineNs => 2 ^ 64 - 1
  | localComponent | remoteComponent => uint16Max
  | localEpoch | hopLimit | timeoutTicks => uint32Max

def store (n : Nat) (c : TopologyLinkConfig) : NumericKey → TopologyLinkConfig
  | linkId => { c with linkId := n }
  | localComponent => { c with localComponent := n }
  | remoteComponent => { c with remoteComponent := n }
  | localEpoch => { c with localEpoch := n }
  | hopLimit => { c with hopLimit := n }
  | defaultDeadlineNs => { c with defaultDeadlineNs := n }
  | timeoutTicks => { c with timeoutTicks := n }

theorem limit_lt (key : NumericKey) : key.limit < 2 ^ 64 := by
  cases key <;> decide

theorem store_injective {key : NumericKey} {n n' : Nat} {c : TopologyLinkConfig}
    (same : key.store n c = key.store n' c) : n = n' := by
  cases key <;> simpa [store] using same

theorem spelling_word {key : NumericKey} {spelling : CString} (spelled : spelling ∈ key.spellings) :
    KeyWord spelling := by
  have all : ∀ key : NumericKey, ∀ spelling ∈ key.spellings, KeyWord spelling := by
    intro key
    cases key <;>
      simp only [spellings, List.forall_mem_cons, List.not_mem_nil, false_implies, implies_true,
        and_true] <;>
      decide
  exact all key spelling spelled

end NumericKey

section Keys

variable {key : NumericKey} {spelling value : CString} {c : TopologyLinkConfig}

theorem parseBounded_wide (bare : Bare isBlank value) :
    parseBounded (2 ^ 64 - 1) value = topologyParseU64 value := by
  ext n
  rw [parseBounded_iff bare, topologyParseU64_iff bare]
  refine and_iff_left_of_imp ?_
  rintro ⟨v, -, rfl⟩
  have := convert_lt (unsigned value).1 v
  omega

/-- Each numeric key reads a number within its limit. -/
theorem setField_numeric (spelled : spelling ∈ key.spellings) (bare : Bare isBlank value) :
    setField spelling value c = (parseBounded key.limit value).map fun n => key.store n c := by
  cases key <;>
    simp only [NumericKey.spellings, List.mem_cons, List.not_mem_nil, or_false] at spelled
  case linkId =>
    rw [NumericKey.limit, parseBounded_wide bare]
    rcases spelled with rfl | rfl <;> rfl
  case defaultDeadlineNs =>
    rw [NumericKey.limit, parseBounded_wide bare]
    subst spelled
    rfl
  case localComponent => rcases spelled with rfl | rfl <;> rfl
  case remoteComponent => rcases spelled with rfl | rfl <;> rfl
  case localEpoch =>
    subst spelled
    rfl
  case hopLimit =>
    subst spelled
    rfl
  case timeoutTicks =>
    subst spelled
    rfl

end Keys

/-- A line with a numeric key is accepted exactly when its trimmed value is an unsigned integer
literal that fits the type of the field, and then stores that value, if and only if the value does
not reach the sign and the saturation of `strtoull`. -/
theorem numbers_exact (key : NumericKey) (spelling pad pad' raw : CString)
    (spelled : spelling ∈ key.spellings) (before : Blanks pad) (behind : Blanks pad')
    (p : TopologyParse) (i : Nat) (c : TopologyLinkConfig) (opened : p.current = some i)
    (here : p.parsed[i]? = some c) :
    (∀ p', parseLine (pad ++ spelling ++ pad' ++ '=' :: raw) p = some p' ↔
        ∃ n, Literal (topologyTrim raw) n ∧ n ≤ key.limit ∧
          p' = { p with parsed := p.parsed.set i (key.store n c) }) ↔
      Faithful key.limit (topologyTrim raw) := by
  have bare : Bare isBlank (topologyTrim raw) := trim_bare _ _
  rw [← parseBounded_exact key.limit_lt bare,
    parseLine_key (NumericKey.spelling_word spelled) before behind]
  simp only [opened, here, setField_numeric spelled bare, Option.map_map, Option.map_eq_some_iff]
  constructor
  · intro exact n
    have inside : i < p.parsed.length := (List.getElem?_eq_some_iff.mp here).1
    have stored {n n' : Nat} (same : p.parsed.set i (key.store n c) = p.parsed.set i (key.store n' c)) :
        n = n' := by
      have at' := congrArg (·[i]?) same
      simp only [List.getElem?_set_self inside, Option.some.injEq] at at'
      exact NumericKey.store_injective at'
    constructor
    · intro read
      obtain ⟨n', literal, fits, same⟩ := (exact _).mp ⟨n, read, rfl⟩
      rw [stored (congrArg TopologyParse.parsed same)]
      exact ⟨literal, fits⟩
    · rintro ⟨literal, fits⟩
      obtain ⟨n', read, same⟩ := (exact _).mpr ⟨n, literal, fits, rfl⟩
      rw [← stored (congrArg TopologyParse.parsed same)]
      exact read
  · intro exact p'
    constructor
    · rintro ⟨n, read, rfl⟩
      obtain ⟨literal, fits⟩ := (exact n).mp read
      exact ⟨n, literal, fits, rfl⟩
    · rintro ⟨n, literal, fits, rfl⟩
      exact ⟨n, (exact n).mpr ⟨literal, fits⟩, rfl⟩

/-- A section whose ID is being read. -/
def idPending : TopologyParse := ⟨[exampleLink 'a' 0], some 0⟩

theorem numbers_exact_id :
    parseLine "id = 0x1F".toList idPending = some ⟨[exampleLink 'a' 31], some 0⟩ ↔
      ∃ n, Literal "0x1F".toList n ∧ n ≤ 2 ^ 64 - 1 ∧ (⟨[exampleLink 'a' 31], some 0⟩ : TopologyParse) =
        { idPending with parsed := [{ exampleLink 'a' 0 with linkId := n }] } := by
  refine (numbers_exact .linkId "id".toList [] [' '] " 0x1F".toList (by decide) blanks_nil
    (by simp [Blanks, isBlank]) idPending 0 _ rfl rfl).mpr ?_ _
  intro v literal
  have value := (literal_iff.mp literal).2.2
  rw [if_pos (by decide), value]
  exact .inl (by decide)

/-- A minus sign wraps around: `local = -18446744073709551615` is read as component 1. -/
theorem negative_component :
    ¬∀ (key : NumericKey) (spelling pad pad' raw : CString), spelling ∈ key.spellings →
      Blanks pad → Blanks pad' → ∀ (p : TopologyParse) (i : Nat) (c : TopologyLinkConfig),
      p.current = some i → p.parsed[i]? = some c →
      ∀ p', parseLine (pad ++ spelling ++ pad' ++ '=' :: raw) p = some p' ↔
        ∃ n, Literal (topologyTrim raw) n ∧ n ≤ key.limit ∧
          p' = { p with parsed := p.parsed.set i (key.store n c) } := by
  intro exact
  obtain ⟨n, literal, -⟩ := (exact .localComponent "local".toList [] [] "-18446744073709551615".toList
    (by decide) blanks_nil blanks_nil idPending 0 _ rfl rfl
    ⟨[{ exampleLink 'a' 0 with localComponent := 1 }], some 0⟩).mp rfl
  exact absurd literal.unsigned (by decide)

end Zipc
