import Zipc.Topology
import Zipc.Lib.Trim

/-! # The lines of a topology text

What `zipc_topology_load_string` does with one line: nothing with a blank line or a comment, a new
link with a section header, and one field with `key = value`. The lemmas say it for every blank
around the parts of the line.
-/

namespace Zipc

open Trim

/-- White space that a line is trimmed of. -/
def Blanks (s : CString) : Prop := ∀ c ∈ s, isBlank c = true

/-- The characters that the keys are made of. -/
def isKeyChar (c : Char) : Bool := ('a'.toNat ≤ c.toNat && c.toNat ≤ 'z'.toNat) || c = '_'

/-- A word like the keys. -/
structure KeyWord (key : CString) : Prop where
  nonempty : key ≠ []
  chars : ∀ c ∈ key, isKeyChar c = true

instance (key : CString) : Decidable (KeyWord key) :=
  decidable_of_iff (key ≠ [] ∧ key.all isKeyChar = true)
    ⟨fun both => ⟨both.1, List.all_eq_true.mp both.2⟩,
      fun word => ⟨word.nonempty, List.all_eq_true.mpr word.chars⟩⟩

theorem blanks_nil : Blanks [] := by
  simp [Blanks]

theorem topologyTrim_eq (s : CString) : topologyTrim s = trim isBlank s := rfl

theorem not_blank_of_key {c : Char} (key : isKeyChar c = true) : isBlank c = false := by
  by_contra blank
  simp only [isBlank, Bool.or_eq_true, decide_eq_true_eq, Bool.not_eq_false] at blank
  rcases blank with ((rfl | rfl) | rfl) | rfl <;> revert key <;> decide

/-- A key word stays when the blanks around it are trimmed. -/
theorem KeyWord.bare {key : CString} (word : KeyWord key) : Bare isBlank key where
  left c member := not_blank_of_key (word.chars c (List.mem_of_mem_head? member))
  right c member := not_blank_of_key (word.chars c (List.mem_of_mem_getLast? member))

section Lines

variable {pad pad' pad'' key raw name inner tail line : CString} {p : TopologyParse}

/-- A line that sets a field of the open section. -/
theorem parseLine_key (word : KeyWord key) (before : Blanks pad) (behind : Blanks pad') :
    parseLine (pad ++ key ++ pad' ++ '=' :: raw) p =
      match p.current with
      | none => some p
      | some i =>
          match p.parsed[i]? with
          | some current => (setField key (topologyTrim raw) current).map
              fun c => { p with parsed := p.parsed.set i c }
          | none => none := by
  have unequal : ∀ c ∈ key ++ pad', decide (c ≠ '=') = true := by
    intro c member
    rw [decide_eq_true_eq]
    rintro rfl
    rcases List.mem_append.mp member with inKey | inPad
    · exact absurd (word.chars _ inKey) (by decide)
    · exact absurd (behind _ inPad) (by decide)
  have keyPart : topologyTrim (key ++ pad') = key := by
    have padded : trim isBlank ([] ++ key ++ pad') = trim isBlank key :=
      trim_pad blanks_nil behind key
    rwa [word.bare.trim] at padded
  have valuePart : topologyTrim (raw.rdropWhile isBlank) = topologyTrim raw := trim_rdropWhile _ _
  have split : topologyTrim (pad ++ key ++ pad' ++ '=' :: raw) =
      key ++ pad' ++ '=' :: raw.rdropWhile isBlank := by
    cases key with
    | nil => exact absurd rfl word.nonempty
    | cons k ks =>
      have stays : isBlank k = false := not_blank_of_key (word.chars k List.mem_cons_self)
      have cut := trim_append_cons before stays (ks ++ pad' ++ '=' :: raw)
      rw [rdropWhile_append_cons (by decide)] at cut
      simpa [topologyTrim_eq] using cut
  have first : ∀ c rest, key ++ pad' ++ '=' :: raw.rdropWhile isBlank = c :: rest →
      isKeyChar c = true := by
    intro c rest same
    cases key with
    | nil => exact absurd rfl word.nonempty
    | cons k ks =>
      cases same
      exact word.chars _ List.mem_cons_self
  have found : '=' ∈ key ++ pad' ++ '=' :: raw.rdropWhile isBlank := by simp
  have keyEnds : (key ++ pad' ++ '=' :: raw.rdropWhile isBlank).takeWhile (fun c => decide (c ≠ '=')) =
      key ++ pad' := by
    rw [List.takeWhile_append_of_pos unequal, List.takeWhile_cons_of_neg (by simp), List.append_nil]
  have valueStarts : (key ++ pad' ++ '=' :: raw.rdropWhile isBlank).dropWhile
      (fun c => decide (c ≠ '=')) = '=' :: raw.rdropWhile isBlank :=
    dropWhile_append_cons unequal (by simp) _
  unfold parseLine
  rw [split]
  -- the line starts with a letter of the key, so that only the last case is left
  split
  · rename_i same
    simp at same
  · rename_i same
    exact absurd (first _ _ same) (by decide)
  · rename_i same
    exact absurd (first _ _ same) (by decide)
  · rename_i same
    exact absurd (first _ _ same) (by decide)
  · cases p.current with
    | none => rfl
    | some i =>
      cases here : p.parsed[i]? with
      | none => simp only [found, if_true, here]
      | some current =>
        simp only [found, if_true, here, keyEnds, valueStarts, List.drop_one, List.tail_cons,
          keyPart, valuePart]

/-- A line that opens a section. -/
theorem parseLine_header (before : Blanks pad) (closed : ']' ∉ inner) :
    parseLine (pad ++ '[' :: (inner ++ ']' :: tail)) p = openSection (topologyTrim inner) p := by
  have cut := trim_append_cons before (by decide : isBlank '[' = false) (inner ++ ']' :: tail)
  rw [rdropWhile_append_cons (by decide)] at cut
  have unclosed : ∀ c ∈ inner, decide (c ≠ ']') = true := by
    intro c member
    rw [decide_eq_true_eq]
    rintro rfl
    exact closed member
  unfold parseLine
  rw [topologyTrim_eq, cut]
  simp only
  rw [if_pos (by simp), List.takeWhile_append_of_pos unclosed, List.takeWhile_cons_of_neg (by simp),
    List.append_nil]

/-- The section of a link: its name stands behind `link.` or `link` and a blank. -/
theorem openSection_link (named : topologyNameValid (some name) = true) (bare : Bare isBlank name)
    {sep : Char} (separates : sep = '.' ∨ sep = ' ') (before : Blanks pad) (between : Blanks pad')
    (behind : Blanks pad'') (room : p.parsed.length < topologyMaxLinks) :
    openSection (topologyTrim (pad ++ ("link".toList ++ sep :: (pad' ++ name)) ++ pad'')) p =
      some ⟨p.parsed ++ [{ name := some name }], some p.parsed.length⟩ := by
  have nonempty : name ≠ [] := by
    rintro rfl
    cases named
  have whole : Bare isBlank ("link".toList ++ sep :: (pad' ++ name)) := by
    refine ⟨?_, fun c member => bare.right c ?_⟩
    · intro c member
      cases member
      rfl
    · rwa [← List.getLast?_append_of_ne_nil ("link".toList ++ sep :: pad') nonempty, List.append_assoc,
        List.cons_append]
  have inner : topologyTrim (pad ++ ("link".toList ++ sep :: (pad' ++ name)) ++ pad'') =
      "link".toList ++ sep :: (pad' ++ name) := by
    rw [topologyTrim_eq, trim_pad before behind, whole.trim]
  have last : topologyTrim (pad' ++ name) = name := by
    have padded : trim isBlank (pad' ++ name ++ []) = trim isBlank name := trim_pad between blanks_nil name
    rwa [List.append_nil, bare.trim] at padded
  rw [inner]
  have head : ("link".toList ++ sep :: (pad' ++ name)).take 5 = "link".toList ++ [sep] := rfl
  have rest : ("link".toList ++ sep :: (pad' ++ name)).drop 5 = pad' ++ name := rfl
  unfold openSection
  simp only [head, rest, last, nameField_valid named, named, room, decide_true, Bool.and_self, if_true]
  rw [if_pos]
  rcases separates with rfl | rfl
  · exact .inl rfl
  · exact .inr rfl

/-- Blank lines and comments are passed over. -/
theorem parseLine_noise (noise : topologyTrim line = [] ∨ ∃ rest, topologyTrim line = '#' :: rest ∨
      topologyTrim line = ';' :: rest) : parseLine line p = some p := by
  unfold parseLine
  rcases noise with blank | ⟨rest, comment | comment⟩
  · rw [blank]
  · rw [comment]
    rfl
  · rw [comment]
    rfl

end Lines

end Zipc
