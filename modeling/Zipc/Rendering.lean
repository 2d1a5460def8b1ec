import Zipc.Numerals
import Zipc.Validation

/-! # Text and compiled topologies

A configuration can be written down as a text in many ways: the keys of a section in any order and
spelling, numbers in any notation, blanks around every part, blank lines and comments anywhere.
`zipc_topology_load_string` reads every such text back as the configuration itself, so that it does
what `zipc_topology_register_config` does with the compiled table.
-/

namespace Zipc

open Trim

variable {Pool Transport : Type}

/-! ## Writing a configuration down -/

/-- Blanks within a line. -/
def Padding (s : CString) : Prop := ∀ c ∈ s, c = ' ' ∨ c = '\t' ∨ c = '\r'

/-- A string that ends neither the line nor the text. -/
structure Inline (s : CString) : Prop where
  newline : '\n' ∉ s
  zero : '\x00' ∉ s

/-- A name that can stand in a line without being trimmed. -/
structure Writable (name : CString) : Prop extends Inline name where
  first : ∀ c ∈ name.head?, c ≠ ' ' ∧ c ≠ '\t' ∧ c ≠ '\r'
  last : ∀ c ∈ name.getLast?, c ≠ ' ' ∧ c ≠ '\t' ∧ c ≠ '\r'

/-- A blank line or a comment. -/
inductive Noise : CString → Prop where
  | blank {pad : CString} : Padding pad → Noise pad
  | comment {pad rest : CString} {c : Char} : Padding pad → c = '#' ∨ c = ';' → Inline rest →
      Noise (pad ++ c :: rest)

/-- What a line can set. -/
inductive LinkField where
  | number (key : NumericKey)
  | pool | transport | role
  deriving Repr, DecidableEq

def NumericKey.value (l : TopologyLinkConfig) : NumericKey → Nat
  | linkId => l.linkId
  | localComponent => l.localComponent
  | remoteComponent => l.remoteComponent
  | localEpoch => l.localEpoch
  | hopLimit => l.hopLimit
  | defaultDeadlineNs => l.defaultDeadlineNs
  | timeoutTicks => l.timeoutTicks

namespace LinkField

/-- The key and the value that write a field of the link down. -/
inductive Text (l : TopologyLinkConfig) : LinkField → CString → CString → Prop where
  | number {key : NumericKey} {spelling digits : CString} : spelling ∈ key.spellings →
      Literal digits (key.value l) → Text l (.number key) spelling digits
  | pool {name : CString} : l.poolName = some name → Text l .pool "pool".toList name
  | transport {name : CString} : l.transportName = some name →
      Text l .transport "transport".toList name
  | producer : l.role = linkRoleProducer → Text l .role "role".toList "producer".toList
  | consumer : l.role = linkRoleConsumer → Text l .role "role".toList "consumer".toList

/-- The field need not be written down. -/
def Default (l : TopologyLinkConfig) : LinkField → Prop
  | number key => key.value l = 0
  | pool => l.poolName = none
  | transport => l.transportName = none
  | role => l.role = 0

/-- The line writes the field down. -/
inductive Line (l : TopologyLinkConfig) (f : LinkField) : CString → Prop where
  | mk {key value pad₁ pad₂ pad₃ pad₄ : CString} : f.Text l key value → Padding pad₁ →
      Padding pad₂ → Padding pad₃ → Padding pad₄ →
      Line l f (pad₁ ++ key ++ pad₂ ++ '=' :: (pad₃ ++ value ++ pad₄))

end LinkField

/-- The line opens the section of a link. -/
inductive HeaderLine (name : CString) : CString → Prop where
  | mk {pad₁ pad₂ pad₃ pad₄ pad₅ : CString} {sep : Char} : sep = '.' ∨ sep = ' ' → Padding pad₁ →
      Padding pad₂ → Padding pad₃ → Padding pad₄ → Padding pad₅ →
      HeaderLine name (pad₁ ++ '[' ::
        (pad₂ ++ ("link".toList ++ sep :: (pad₃ ++ name)) ++ pad₄ ++ ']' :: pad₅))

/-- The lines of a section, with the fields that they write down. -/
inductive SectionBody (l : TopologyLinkConfig) : List LinkField → List CString → Prop where
  | nil : SectionBody l [] []
  | noise {line : CString} {fields : List LinkField} {rest : List CString} : Noise line →
      SectionBody l fields rest → SectionBody l fields (line :: rest)
  | field {f : LinkField} {line : CString} {fields : List LinkField} {rest : List CString} :
      f.Line l line → SectionBody l fields rest → SectionBody l (f :: fields) (line :: rest)

/-- The sections of the links one after the other, with every field that is not left at zero. -/
inductive Sections : List TopologyLinkConfig → List CString → Prop where
  | nil : Sections [] []
  | cons {l : TopologyLinkConfig} {name header : CString} {fields : List LinkField}
      {body more : List CString} {rest : List TopologyLinkConfig} : l.name = some name →
      HeaderLine name header → SectionBody l fields body → (∀ f, f ∈ fields ∨ f.Default l) →
      Sections rest more → Sections (l :: rest) (header :: (body ++ more))

/-- The text writes the configuration down; the lines before the first section are noise. -/
inductive Renders (config : List TopologyLinkConfig) : CString → Prop where
  | mk {preamble lines : List CString} : (∀ line ∈ preamble, Noise line) → Sections config lines →
      Renders config (List.intercalate ['\n'] (preamble ++ lines))

/-- The numbers of a link fit their types, and its names can be written down. -/
structure TopologyLinkConfig.Renderable (l : TopologyLinkConfig) : Prop where
  typed : ∀ key : NumericKey, key.value l ≤ key.limit
  name : ∀ s ∈ l.name, Writable s ∧ ']' ∉ s
  poolName : ∀ s ∈ l.poolName, Writable s
  transportName : ∀ s ∈ l.transportName, Writable s

/-! ## The parts of a line -/

section Parts

variable {s a b : CString} {c : Char}

theorem Padding.blanks (padding : Padding s) : Blanks s := by
  intro c member
  rcases padding c member with rfl | rfl | rfl <;> rfl

theorem Inline.append (first : Inline a) (second : Inline b) : Inline (a ++ b) := by
  constructor
  · simp [first.newline, second.newline]
  · simp [first.zero, second.zero]

theorem Inline.cons (newline : c ≠ '\n') (zero : c ≠ '\x00') (rest : Inline s) : Inline (c :: s) := by
  constructor
  · simp [rest.newline, newline.symm]
  · simp [rest.zero, zero.symm]

/-- A string of characters of one kind, when the kind has neither of the two. -/
theorem inline_of_all {kind : Char → Prop} (all : ∀ c ∈ s, kind c) (newline : ¬kind '\n')
    (zero : ¬kind '\x00') : Inline s :=
  ⟨fun member => newline (all _ member), fun member => zero (all _ member)⟩

theorem Padding.inline (padding : Padding s) : Inline s :=
  inline_of_all padding (by decide) (by decide)

theorem KeyWord.inline (word : KeyWord s) : Inline s :=
  inline_of_all word.chars (by decide) (by decide)

theorem Writable.bare (writable : Writable s) : Bare isBlank s := by
  have blank {c : Char} (member : c ∈ s) (plain : c ≠ ' ' ∧ c ≠ '\t' ∧ c ≠ '\r') :
      isBlank c = false := by
    have newline : c ≠ '\n' := by
      rintro rfl
      exact writable.newline member
    simp [isBlank, plain, newline]
  exact ⟨fun c at' => blank (List.mem_of_mem_head? at') (writable.first c at'),
    fun c at' => blank (List.mem_of_mem_getLast? at') (writable.last c at')⟩

/-- The characters of a literal. -/
def isLiteralChar (c : Char) : Bool := isDigit 16 c || c = 'x' || c = 'X'

theorem Literal.chars {v : Nat} (literal : Literal s v) : ∀ c ∈ s, isLiteralChar c = true := by
  have digit {base : Nat} {c : Char} (le : base ≤ 16) (digit : isDigit base c = true) :
      isLiteralChar c = true := by
    simp [isLiteralChar, isDigit_mono le digit]
  cases literal with
  | decimal _ digits => exact fun c member => digit (by decide) (digits c member)
  | octal digits =>
    rw [List.forall_mem_cons]
    exact ⟨by decide, fun c member => digit (by decide) (digits c member)⟩
  | hexadecimal isX _ digits =>
    rw [List.forall_mem_cons, List.forall_mem_cons]
    refine ⟨by decide, ?_, fun c member => digit (by decide) (digits c member)⟩
    rcases isX with rfl | rfl <;> decide

theorem Literal.inline {v : Nat} (literal : Literal s v) : Inline s :=
  inline_of_all literal.chars (by decide) (by decide)

theorem Literal.bare {v : Nat} (literal : Literal s v) : Bare isBlank s := by
  have stays (c : Char) (member : c ∈ s) : isBlank c = false := by
    by_contra blank
    have known := literal.chars c member
    simp only [isBlank, Bool.or_eq_true, decide_eq_true_eq, Bool.not_eq_false] at blank
    rcases blank with ((rfl | rfl) | rfl) | rfl <;> revert known <;> decide
  exact ⟨fun c at' => stays c (List.mem_of_mem_head? at'),
    fun c at' => stays c (List.mem_of_mem_getLast? at')⟩

end Parts

/-! ## One line -/

/-- The link that is read, with the field taken from the link that is written down. -/
def LinkField.copy (l c : TopologyLinkConfig) : LinkField → TopologyLinkConfig
  | number key => key.store (key.value l) c
  | pool => { c with poolName := l.poolName }
  | transport => { c with transportName := l.transportName }
  | role => { c with role := l.role }

section OneLine

variable {t : Topology Pool Transport} {l c : TopologyLinkConfig} {f : LinkField}
  {key value line name : CString} {p : TopologyParse} {i : Nat}

theorem LinkField.Text.word (text : f.Text l key value) : KeyWord key := by
  cases text with
  | number spelled _ => exact NumericKey.spelling_word spelled
  | pool _ => decide
  | transport _ => decide
  | producer _ => decide
  | consumer _ => decide

theorem LinkField.Text.value_writable (renderable : l.Renderable) (text : f.Text l key value) :
    Inline value ∧ Bare isBlank value := by
  cases text with
  | number _ literal => exact ⟨literal.inline, literal.bare⟩
  | pool isName =>
    have writable := renderable.poolName _ isName
    exact ⟨writable.toInline, writable.bare⟩
  | transport isName =>
    have writable := renderable.transportName _ isName
    exact ⟨writable.toInline, writable.bare⟩
  | producer _ => exact ⟨(by decide : KeyWord _).inline, (by decide : KeyWord _).bare⟩
  | consumer _ => exact ⟨(by decide : KeyWord _).inline, (by decide : KeyWord _).bare⟩

/-- A literal within the limit is read as its value. -/
theorem parseBounded_literal {limit n : Nat} {digits : CString} (literal : Literal digits n)
    (fits : n ≤ limit) (small : limit < 2 ^ 64) : parseBounded limit digits = some n := by
  rw [parseBounded_iff literal.bare]
  refine ⟨⟨n, by rwa [literal.unsigned], ?_⟩, fits⟩
  rw [literal.unsigned, convert, if_neg (by omega)]
  rfl

/-- A field that is written down is read back. -/
theorem LinkField.Text.setField (accepted : l.Acceptable t) (renderable : l.Renderable)
    (text : f.Text l key value) : setField key value c = some (f.copy l c) := by
  have named {name : Option CString} {s : CString} (nameable : Nameable name) (is : name = some s) :
      topologyNameValid (some s) = true := is ▸ nameValid_iff.mpr nameable
  cases text with
  | @number numeric spelling digits spelled literal =>
    rw [setField_numeric spelled literal.bare,
      parseBounded_literal literal (renderable.typed numeric) numeric.limit_lt]
    rfl
  | pool isName =>
    have valid := named accepted.poolName isName
    have set : Zipc.setField "pool".toList value c =
        if topologyNameValid (some value) then some { c with poolName := some (nameField value) }
        else none := rfl
    rw [set, if_pos valid, nameField_valid valid, LinkField.copy, isName]
  | transport isName =>
    have valid := named accepted.transportName isName
    have set : Zipc.setField "transport".toList value c =
        if topologyNameValid (some value) then
          some { c with transportName := some (nameField value) }
        else none := rfl
    rw [set, if_pos valid, nameField_valid valid, LinkField.copy, isName]
  | producer isRole =>
    rw [LinkField.copy, isRole]
    rfl
  | consumer isRole =>
    rw [LinkField.copy, isRole]
    rfl

theorem LinkField.Line.parse (accepted : l.Acceptable t) (renderable : l.Renderable)
    (written : f.Line l line) (opened : p.current = some i) (here : p.parsed[i]? = some c) :
    parseLine line p = some { p with parsed := p.parsed.set i (f.copy l c) } := by
  obtain ⟨text, before, behind, left, right⟩ := written
  obtain ⟨-, bare⟩ := text.value_writable renderable
  have trimmed : topologyTrim (_ ++ _ ++ _) = _ := (trim_pad left.blanks right.blanks _).trans bare.trim
  rw [parseLine_key text.word before.blanks behind.blanks]
  simp only [opened, here, trimmed, text.setField accepted renderable, Option.map_some]

theorem LinkField.Line.inline (renderable : l.Renderable) (written : f.Line l line) : Inline line := by
  obtain ⟨text, before, behind, left, right⟩ := written
  obtain ⟨inline, -⟩ := text.value_writable renderable
  exact ((before.inline.append text.word.inline).append behind.inline).append
    (.cons (by decide) (by decide) ((left.inline.append inline).append right.inline))

theorem Noise.parse (noise : Noise line) : parseLine line p = some p := by
  apply parseLine_noise
  cases noise with
  | blank padding => exact .inl (trim_blank padding.blanks)
  | @comment pad rest c padding mark _ =>
    refine .inr ⟨rest.rdropWhile isBlank, ?_⟩
    rcases mark with rfl | rfl
    · exact .inl (trim_append_cons padding.blanks (by decide) rest)
    · exact .inr (trim_append_cons padding.blanks (by decide) rest)

theorem Noise.inline (noise : Noise line) : Inline line := by
  cases noise with
  | blank padding => exact padding.inline
  | comment padding mark rest =>
    refine padding.inline.append ?_
    rcases mark with rfl | rfl
    · exact .cons (by decide) (by decide) rest
    · exact .cons (by decide) (by decide) rest

/-- The header of a section starts a link with its name. -/
theorem HeaderLine.parse (header : HeaderLine name line) (named : topologyNameValid (some name) = true)
    (writable : Writable name) (unclosed : ']' ∉ name) (room : p.parsed.length < topologyMaxLinks) :
    parseLine line p = some ⟨p.parsed ++ [{ name := some name }], some p.parsed.length⟩ := by
  obtain ⟨separates, before, left, between, right, behind⟩ := header
  have outside {pad : CString} (padding : Padding pad) : ']' ∉ pad := fun member =>
    absurd (padding _ member) (by decide)
  rw [parseLine_header before.blanks]
  · exact openSection_link named writable.bare separates left.blanks between.blanks right.blanks room
  · simp only [List.mem_append, List.mem_cons, not_or]
    refine ⟨⟨outside left, by decide, ?_, outside between, unclosed⟩, outside right⟩
    rcases separates with rfl | rfl <;> decide

theorem HeaderLine.inline (header : HeaderLine name line) (writable : Writable name) :
    Inline line := by
  obtain ⟨separates, before, left, between, right, behind⟩ := header
  have word : Inline "link".toList := (by decide : KeyWord _).inline
  refine before.inline.append (.cons (by decide) (by decide) ?_)
  refine ((left.inline.append (word.append ?_)).append right.inline).append
    (.cons (by decide) (by decide) behind.inline)
  rcases separates with rfl | rfl
  · exact .cons (by decide) (by decide) (between.inline.append writable.toInline)
  · exact .cons (by decide) (by decide) (between.inline.append writable.toInline)

end OneLine

/-! ## A section -/

/-- The field is read as it was written down. -/
def LinkField.Same (l c : TopologyLinkConfig) : LinkField → Prop
  | number key => key.value c = key.value l
  | pool => c.poolName = l.poolName
  | transport => c.transportName = l.transportName
  | role => c.role = l.role

section OneSection

variable {t : Topology Pool Transport} {l c : TopologyLinkConfig} {f g : LinkField}
  {fields : List LinkField} {body : List CString} {p : TopologyParse} {i : Nat}

theorem LinkField.copy_name : (f.copy l c).name = c.name := by
  cases f with
  | number key => cases key <;> rfl
  | pool => rfl
  | transport => rfl
  | role => rfl

theorem LinkField.same_copy (f : LinkField) (l c : TopologyLinkConfig) : f.Same l (f.copy l c) := by
  cases f with
  | number key => cases key <;> rfl
  | pool => rfl
  | transport => rfl
  | role => rfl

/-- Reading one field keeps the others. -/
theorem LinkField.Same.copy (same : g.Same l c) (f : LinkField) : g.Same l (f.copy l c) := by
  by_cases again : f = g
  · subst again
    exact f.same_copy l c
  · cases f with
    | number key =>
      cases g with
      | number other => cases key <;> cases other <;> first | exact same | exact absurd rfl again
      | pool => cases key <;> exact same
      | transport => cases key <;> exact same
      | role => cases key <;> exact same
    | pool => cases g <;> first | exact same | exact absurd rfl again
    | transport => cases g <;> first | exact same | exact absurd rfl again
    | role => cases g <;> first | exact same | exact absurd rfl again

/-- Two links with the same name and the same fields are one. -/
theorem eq_of_same (name : c.name = l.name) (all : ∀ f : LinkField, f.Same l c) : c = l := by
  have linkId := all (.number .linkId)
  have localComponent := all (.number .localComponent)
  have remoteComponent := all (.number .remoteComponent)
  have localEpoch := all (.number .localEpoch)
  have hopLimit := all (.number .hopLimit)
  have defaultDeadlineNs := all (.number .defaultDeadlineNs)
  have timeoutTicks := all (.number .timeoutTicks)
  have pool := all .pool
  have transport := all .transport
  have role := all .role
  cases c
  cases l
  simp only [LinkField.Same, NumericKey.value] at *
  simp only [*]

/-- The link after all fields of a section. -/
def copyFields (l c : TopologyLinkConfig) (fields : List LinkField) : TopologyLinkConfig :=
  fields.foldl (fun c f => f.copy l c) c

theorem copyFields_name (fields : List LinkField) (c : TopologyLinkConfig) :
    (copyFields l c fields).name = c.name := by
  induction fields generalizing c with
  | nil => rfl
  | cons f fields ih => exact (ih (f.copy l c)).trans LinkField.copy_name

theorem LinkField.Same.copies (same : g.Same l c) (fields : List LinkField) :
    g.Same l (copyFields l c fields) := by
  induction fields generalizing c with
  | nil => exact same
  | cons f fields ih => exact ih (same.copy f)

theorem copyFields_same (fields : List LinkField) (c : TopologyLinkConfig) (member : g ∈ fields) :
    g.Same l (copyFields l c fields) := by
  induction fields generalizing c with
  | nil => cases member
  | cons f fields ih =>
    rcases List.mem_cons.mp member with rfl | later
    · exact (g.same_copy l c).copies fields
    · exact ih (f.copy l c) later

/-- A section that writes down every field that is not zero gives the link back. -/
theorem copyFields_eq {name : CString} (isName : l.name = some name)
    (complete : ∀ f, f ∈ fields ∨ f.Default l) : copyFields l { name := some name } fields = l := by
  apply eq_of_same
  · rw [copyFields_name, isName]
  · intro f
    rcases complete f with written | left
    · exact copyFields_same fields _ written
    · have same : f.Same l { name := some name } := by
        cases f with
        | number key => cases key <;> exact left.symm
        | pool => exact left.symm
        | transport => exact left.symm
        | role => exact left.symm
      exact same.copies fields

theorem SectionBody.parse (accepted : l.Acceptable t) (renderable : l.Renderable)
    (written : SectionBody l fields body) : ∀ {p : TopologyParse} {c : TopologyLinkConfig},
    p.current = some i → p.parsed[i]? = some c →
      parseLines body p = some { p with parsed := p.parsed.set i (copyFields l c fields) } := by
  induction written with
  | nil =>
    intro p c opened here
    obtain ⟨inside, rfl⟩ := List.getElem?_eq_some_iff.mp here
    simp [parseLines, copyFields]
  | noise quiet _ ih =>
    intro p c opened here
    rw [parseLines, quiet.parse]
    exact ih opened here
  | @field f line fields rest written _ ih =>
    intro p c opened here
    have inside : i < p.parsed.length := (List.getElem?_eq_some_iff.mp here).1
    rw [parseLines, written.parse accepted renderable opened here]
    have next := ih (p := { p with parsed := p.parsed.set i (f.copy l c) }) opened
      (List.getElem?_set_self inside)
    simpa [copyFields] using next

theorem SectionBody.inline (renderable : l.Renderable) (written : SectionBody l fields body) :
    ∀ line ∈ body, Inline line := by
  induction written with
  | nil => exact nofun
  | noise quiet _ ih => exact List.forall_mem_cons.mpr ⟨quiet.inline, ih⟩
  | field written _ ih => exact List.forall_mem_cons.mpr ⟨written.inline renderable, ih⟩

end OneSection

/-! ## The whole text -/

section Whole

variable {t : Topology Pool Transport} {config : List TopologyLinkConfig} {lines : List CString}
  {text : CString} {p : TopologyParse}

theorem parseLines_append (first rest : List CString) (p : TopologyParse) :
    parseLines (first ++ rest) p = (parseLines first p).bind (parseLines rest) := by
  induction first generalizing p with
  | nil => rfl
  | cons line first ih =>
    simp only [List.cons_append, parseLines]
    cases parseLine line p with
    | none => rfl
    | some p => exact ih p

theorem parseLines_noise (quiet : ∀ line ∈ lines, Noise line) : parseLines lines p = some p := by
  induction lines with
  | nil => rfl
  | cons line lines ih =>
    rw [List.forall_mem_cons] at quiet
    rw [parseLines, quiet.1.parse]
    exact ih quiet.2

/-- The sections append their links to those that were read before. -/
theorem Sections.parse (written : Sections config lines)
    (accepted : ∀ l ∈ config, l.Acceptable t) (renderable : ∀ l ∈ config, l.Renderable) :
    ∀ {p : TopologyParse}, p.parsed.length + config.length ≤ topologyMaxLinks →
      ∃ current, parseLines lines p = some ⟨p.parsed ++ config, current⟩ := by
  induction written with
  | nil =>
    intro p _
    exact ⟨p.current, by simp [parseLines]⟩
  | @cons l name header fields body more rest isName opens section_ complete _ ih =>
    intro p room
    rw [List.forall_mem_cons] at accepted renderable
    rw [List.length_cons] at room
    have valid : topologyNameValid (some name) = true :=
      isName ▸ nameValid_iff.mpr accepted.1.name
    obtain ⟨writable, unclosed⟩ := renderable.1.name name isName
    have started := opens.parse (p := p) valid writable unclosed (by omega)
    have filled := section_.parse accepted.1 renderable.1
      (p := ⟨p.parsed ++ [{ name := some name }], some p.parsed.length⟩) (c := { name := some name })
      rfl (by simp)
    rw [copyFields_eq isName complete] at filled
    obtain ⟨current, finished⟩ := ih accepted.2 renderable.2
      (p := ⟨p.parsed ++ [l], some p.parsed.length⟩)
      (by simp only [List.length_append, List.length_cons, List.length_nil]; omega)
    refine ⟨current, ?_⟩
    rw [parseLines, started]
    simp only
    rw [parseLines_append, filled]
    simpa using finished

theorem Sections.inline (written : Sections config lines)
    (renderable : ∀ l ∈ config, l.Renderable) : ∀ line ∈ lines, Inline line := by
  induction written with
  | nil => exact nofun
  | cons isName opens written _ _ ih =>
    rw [List.forall_mem_cons] at renderable
    rw [List.forall_mem_cons, List.forall_mem_append]
    exact ⟨opens.inline (renderable.1.name _ isName).1, written.inline renderable.1,
      ih renderable.2⟩

/-- Empty lines make no difference. -/
theorem parseLines_filter (lines : List CString) (p : TopologyParse) :
    parseLines (lines.filter (· ≠ [])) p = parseLines lines p := by
  induction lines generalizing p with
  | nil => rfl
  | cons line lines ih =>
    by_cases empty : line = []
    · subst empty
      rw [List.filter_cons_of_neg (by simp), parseLines]
      exact ih p
    · rw [List.filter_cons_of_pos (by simpa using empty), parseLines, parseLines]
      cases parseLine line p with
      | none => rfl
      | some p => exact ih p

theorem zero_intercalate (inline : ∀ line ∈ lines, Inline line) :
    '\x00' ∉ List.intercalate ['\n'] lines := by
  induction lines with
  | nil => exact nofun
  | cons line lines ih =>
    rw [List.forall_mem_cons] at inline
    cases lines with
    | nil => simpa using inline.1.zero
    | cons next lines =>
      rw [List.intercalate_cons_cons, List.mem_append, List.mem_append]
      simp [inline.1.zero, ih inline.2]

/-- A text that writes a configuration down is read as that configuration. -/
theorem Renders.parse (written : Renders config text) (accepted : Acceptable t config)
    (renderable : ∀ l ∈ config, l.Renderable) : parseText text = some config := by
  cases written with
  | @mk preamble lines quiet written =>
    have inline : ∀ line ∈ preamble ++ lines, Inline line :=
      List.forall_mem_append.mpr ⟨fun line member => (quiet line member).inline,
        written.inline renderable⟩
    have some : preamble ++ lines ≠ [] := by
      cases written with
      | nil => exact absurd accepted.count.1 (by decide)
      | cons => simp
    have whole : (List.intercalate ['\n'] (preamble ++ lines)).takeWhile (fun c => decide (c ≠ '\x00')) =
        List.intercalate ['\n'] (preamble ++ lines) := by
      rw [List.takeWhile_eq_self_iff]
      intro c member
      rw [decide_eq_true_eq]
      rintro rfl
      exact zero_intercalate inline member
    have split : (List.intercalate ['\n'] (preamble ++ lines)).splitOn '\n' = preamble ++ lines :=
      List.splitOn_intercalate _ (fun line member => (inline line member).newline) some
    obtain ⟨current, read⟩ := written.parse accepted.each renderable (p := {})
      (by simpa [topologyMaxLinks] using accepted.count.2)
    unfold parseText
    simp only [whole, split, parseLines_filter]
    rw [parseLines_append, parseLines_noise quiet, Option.bind_some, read]
    simp

end Whole

/-- Loading a text that writes an accepted configuration down is registering the configuration:
the same status, and the same registry. -/
theorem text_agrees (t : Topology Pool Transport) (config : List TopologyLinkConfig)
    (policy : TopologyPolicy) (text : CString) (accepted : topologyValidate t (some config) = .ok)
    (renderable : ∀ l ∈ config, l.Renderable) (written : Renders config text) :
    topologyLoadString t (some text) true policy = topologyRegisterConfig t (some config) policy := by
  have well := topologyValidate_iff.mp accepted
  have read := written.parse well renderable
  have some : config ≠ [] := by
    rintro rfl
    exact absurd well.count.1 (by decide)
  cases text with
  | nil =>
    have nothing : parseText [] = .some [] := rfl
    rw [nothing, Option.some.injEq] at read
    exact absurd read.symm some
  | cons c text =>
    unfold topologyLoadString
    simp only [Bool.true_eq_false, if_false, read]

/-- A comment, and one section with its keys in another order. -/
def exampleText : CString :=
  "# links\n [link a] \nremote = 2\nid = 0x1F\n\npool=p\n transport = t\nlocal=1".toList

theorem exampleText_renders : Renders [exampleLink 'a' 31] exampleText := by
  have space : Padding [' '] := by simp [Padding]
  have none : Padding [] := by simp [Padding]
  have comment : Noise "# links".toList := .comment none (.inl rfl) ⟨by decide, by decide⟩
  have header : HeaderLine ['a'] " [link a] ".toList :=
    @HeaderLine.mk _ [' '] [] [] [] [' '] ' ' (.inr rfl) space none none none space
  have remote : LinkField.Line (exampleLink 'a' 31) (.number .remoteComponent) "remote = 2".toList :=
    @LinkField.Line.mk _ _ "remote".toList "2".toList [] [' '] [' '] []
      (.number (by decide) (.decimal (by decide) (List.all_eq_true.mp rfl))) none space space none
  have linkId : LinkField.Line (exampleLink 'a' 31) (.number .linkId) "id = 0x1F".toList :=
    @LinkField.Line.mk _ _ "id".toList "0x1F".toList [] [' '] [' '] []
      (.number (by decide) (.hexadecimal (.inl rfl) (by decide) (List.all_eq_true.mp rfl))) none space space none
  have pool : LinkField.Line (exampleLink 'a' 31) .pool "pool=p".toList :=
    @LinkField.Line.mk _ _ "pool".toList ['p'] [] [] [] [] (.pool rfl) none none none none
  have transport : LinkField.Line (exampleLink 'a' 31) .transport " transport = t".toList :=
    @LinkField.Line.mk _ _ "transport".toList ['t'] [' '] [' '] [' '] [] (.transport rfl) space space
      space none
  have localComponent : LinkField.Line (exampleLink 'a' 31) (.number .localComponent)
      "local=1".toList :=
    @LinkField.Line.mk _ _ "local".toList "1".toList [] [] [] []
      (.number (by decide) (.decimal (by decide) (List.all_eq_true.mp rfl))) none none none none
  have body := SectionBody.field remote (.field linkId (.noise (.blank none) (.field pool
    (.field transport (.field localComponent .nil)))))
  have complete : ∀ f : LinkField, f ∈ [.number .remoteComponent, .number .linkId, .pool, .transport,
      .number .localComponent] ∨ f.Default (exampleLink 'a' 31) := by
    intro f
    cases f with
    | number key => cases key <;> first | exact .inl (by decide) | exact .inr rfl
    | pool => exact .inl (by decide)
    | transport => exact .inl (by decide)
    | role => exact .inr rfl
  exact Renders.mk (List.forall_mem_singleton.mpr comment)
    (Sections.cons rfl header body complete .nil)

/-- A registry with the resources `p` and `t`. -/
def exampleRegistry : Topology Unit Unit where
  poolBindings := [(['p'], ())]
  transportBindings := [(['t'], ())]

theorem text_agrees_example :
    topologyLoadString exampleRegistry (some exampleText) true .extend =
      topologyRegisterConfig exampleRegistry (some [exampleLink 'a' 31]) .extend := by
  have writable (c : Char) (plain : c ≠ '\n' ∧ c ≠ '\x00' ∧ c ≠ ' ' ∧ c ≠ '\t' ∧ c ≠ '\r') :
      Writable [c] := by
    obtain ⟨newline, zero, ends⟩ := plain
    refine ⟨⟨by simpa using newline.symm, by simpa using zero.symm⟩, ?_, ?_⟩
    · simpa using ends
    · simpa using ends
  refine text_agrees exampleRegistry [exampleLink 'a' 31] .extend exampleText (by decide) ?_
    exampleText_renders
  rw [List.forall_mem_singleton]
  refine ⟨fun key => ?_, ?_, ?_, ?_⟩
  · cases key <;> decide
  · rintro s ⟨⟩
    exact ⟨writable 'a' (by decide), by decide⟩
  · rintro s ⟨⟩
    exact writable 'p' (by decide)
  · rintro s ⟨⟩
    exact writable 't' (by decide)

end Zipc
