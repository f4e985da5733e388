import Stencil.Directive.Standard
import Stencil.Proofs.Directive.Search

/-! # Looking up directives

What is found by exact names is registered. The standard directives have exact names, and their
chains are flat. A name that no directive has exactly is looked up among patterns, and the first that answers to it
counts (`lookup_first_answer`). A pattern answers to no names but those in its language, and not to all of them: it
does not answer when the match it prefers stops short of the end of the name. -/

namespace Stencil.Directive

open Text

/-! ### Patterns -/

/-- The characters of a name. -/
def nameChars (name : Bytes) : Array Char := ((Utf8.decode name).map Utf8.charOf).toArray

/-- A pattern matches the names in its language, except those that it prefers to match in part. -/
theorem Pattern.wholeMatch_isSome_iff (p : Pattern) (name : Bytes) : (p.wholeMatch name).isSome = true ↔
    p.regex.Accepts (nameChars name) ∧ ¬p.regex.StopsShort (nameChars name) := by
  have hsize : (nameChars name).size = (Utf8.decode name).length := by simp [nameChars]
  rw [← Regex.findAtStart_whole_iff, hsize]
  unfold Pattern.wholeMatch nameChars
  dsimp only
  split
  · split
    · simp_all
    · simp_all
  · simp_all

namespace Registry

variable {r : Registry} {e : Registration} {name : Bytes} {d : Definition}

/-- An entry has a pattern with the whole name in its language. -/
def Registration.Covers (e : Registration) (name : Bytes) (p : Pattern) : Prop :=
  e.definition.matching = .pattern (some p) ∧ p.regex.Accepts (nameChars name)

/-- An entry gives a definition for a name: its pattern covers the name and does not stop short of its end, and what
the entry makes of the match is the definition. -/
def Registration.Answers (e : Registration) (name : Bytes) (d : Definition) : Prop :=
  ∃ p, Registration.Covers e name p ∧ ¬p.regex.StopsShort (nameChars name) ∧
    match e.resolve with
    | none => d = e.definition
    | some f => ∃ groups, p.wholeMatch name = some groups ∧ f groups = some d

theorem Registration.matched?_eq_some_iff : Registration.matched? e name = some d ↔ Registration.Answers e name d := by
  constructor
  · intro h
    unfold Registration.matched? at h
    split at h
    · rename_i p hmatching
      split at h
      · rename_i groups hmatch
        obtain ⟨haccepts, hshort⟩ := (p.wholeMatch_isSome_iff name).mp (by rw [hmatch]; rfl)
        refine ⟨p, ⟨hmatching, haccepts⟩, hshort, ?_⟩
        split at h <;> simp_all
      · cases h
    · cases h
  · rintro ⟨p, ⟨hmatching, haccepts⟩, hshort, hgives⟩
    obtain ⟨groups, hmatch⟩ := Option.isSome_iff_exists.mp ((p.wholeMatch_isSome_iff name).mpr ⟨haccepts, hshort⟩)
    simp only [Registration.matched?, hmatching, hmatch]
    cases hresolve : e.resolve <;> simp_all

/-- No directive has a name exactly. -/
def Lacks (r : Registry) (name : Bytes) : Prop := ∀ d ∈ r.definitions, d.matching = .exact → d.name ≠ name

theorem Lacks.lookup_eq (h : r.Lacks name) :
    r.lookup name = r.entries.findSome? fun e => Registration.matched? e name := by
  have hnone : r.named? name = none := by
    refine List.find?_eq_none.mpr fun d hd => ?_
    cases hmatching : d.matching with
    | exact => simpa using h d hd hmatching
    | pattern p => simp
  simp only [lookup, hnone]

/-- For a name that no directive has exactly, the first entry that answers to it counts, and without one there is no
definition. -/
theorem lookup_first_answer (r : Registry) (name : Bytes) (h : r.Lacks name) :
    (∀ d, r.lookup name = some d ↔ ∃ before e after, r.entries = before ++ e :: after ∧
      Registration.Answers e name d ∧ ∀ b ∈ before, ∀ d', ¬Registration.Answers b name d') ∧
    (r.lookup name = none ↔ ∀ e ∈ r.entries, ∀ d, ¬Registration.Answers e name d) := by
  have hnone (e : Registration) : Registration.matched? e name = none ↔ ∀ d, ¬Registration.Answers e name d := by
    simp only [← Registration.matched?_eq_some_iff, Option.eq_none_iff_forall_ne_some]
  rw [h.lookup_eq]
  refine ⟨fun d => ?_, ?_⟩
  · simp only [List.findSome?_eq_some_iff, Registration.matched?_eq_some_iff, hnone]
  · simp only [List.findSome?_eq_none_iff, hnone]

/-- The pattern `a|ab`. -/
def aOrAb : Pattern := ⟨"a|ab", .alt (.seq (.literal 97) .empty) (.seq (.literal 97) (.seq (.literal 98) .empty))⟩

/-- The pattern `ab|a`, which prefers the longer name. -/
def abOrA : Pattern := ⟨"ab|a", .alt (.seq (.literal 97) (.seq (.literal 98) .empty)) (.seq (.literal 97) .empty)⟩

/-- An entry with a pattern. -/
def patternEntry (p : Pattern) : Registration := { definition := { name := p.source, matching := .pattern (some p) } }

theorem lacks_patternEntries (ps : List Pattern) (name : Bytes) : Lacks { entries := ps.map patternEntry } name := by
  intro d hd
  obtain ⟨e, he, rfl⟩ := List.mem_map.mp hd
  obtain ⟨p, -, rfl⟩ := List.mem_map.mp he
  exact nofun

theorem lookup_first_answer_patterns :
    Lacks { entries := [aOrAb, abOrA].map patternEntry } "ab" ∧ ∃ before e after,
      [aOrAb, abOrA].map patternEntry = before ++ e :: after ∧
        Registration.Answers e "ab" (patternEntry abOrA).definition ∧
          ∀ b ∈ before, ∀ d, ¬Registration.Answers b "ab" d := by
  have hlacks := lacks_patternEntries [aOrAb, abOrA] "ab"
  have hshort : aOrAb.wholeMatch "ab" = none := by decide +kernel
  have hlong : abOrA.wholeMatch "ab" = some [("ab" : Bytes)] := by decide +kernel
  have hlookup : lookup { entries := [aOrAb, abOrA].map patternEntry } "ab" = some (patternEntry abOrA).definition := by
    rw [hlacks.lookup_eq]
    simp [patternEntry, Registration.matched?, hshort, hlong]
  exact ⟨hlacks, ((lookup_first_answer _ "ab" hlacks).1 _).mp hlookup⟩

/-- A name in the language of a pattern need not be found: `a|ab` prefers to match `a` in `ab`. -/
theorem not_lookup_of_covers : ¬∀ (r : Registry) (name : Bytes) (e : Registration) (p : Pattern), r.Lacks name →
    e ∈ r.entries → e.resolve = none → Registration.Covers e name p → ∃ d, r.lookup name = some d := by
  intro h
  have hlacks := lacks_patternEntries [aOrAb] "ab"
  have haccepts : aOrAb.regex.Accepts (nameChars "ab") := by
    have hname : nameChars "ab" = #['a', 'b'] := by decide +kernel
    rw [hname]
    exact .inr ⟨1, ⟨⟨'a', rfl, rfl⟩, rfl⟩, 2, ⟨⟨'b', rfl, rfl⟩, rfl⟩, rfl⟩
  obtain ⟨d, hd⟩ := h _ "ab" (patternEntry aOrAb) aOrAb hlacks List.mem_cons_self rfl ⟨rfl, haccepts⟩
  have hshort : aOrAb.wholeMatch "ab" = none := by decide +kernel
  rw [hlacks.lookup_eq] at hd
  simp [patternEntry, Registration.matched?, hshort] at hd

end Registry

/-! ### Exact names -/

/-- Parts own blocks and have no parts of their own. -/
def Registry.Flat (r : Registry) : Prop :=
  ∀ name d, r.lookup name = some d → ∀ p ∈ d.parts, p.block = true ∧ p.parts = []

theorem Registry.mem_of_lookup {r : Registry} (hexact : ∀ d ∈ r.definitions, d.matching = .exact) {name : Bytes}
    {d : Definition} (h : r.lookup name = some d) : d ∈ r.definitions ∧ d.name = name := by
  unfold Registry.lookup at h
  split at h
  · rename_i found hfound
    cases h
    have hmem : d ∈ r.definitions := List.mem_of_find?_eq_some hfound
    have hname := List.find?_some hfound
    rw [hexact d hmem] at hname
    exact ⟨hmem, beq_iff_eq.mp hname⟩
  · obtain ⟨e, he, hmatched⟩ := List.exists_of_findSome?_eq_some h
    simp [Registry.Registration.matched?, hexact e.definition (List.mem_map.mpr ⟨e, he, rfl⟩)] at hmatched

namespace Standard

/-- All standard directives are found by their exact names. -/
theorem mem_all_of_lookup {name : Bytes} {d : Definition} (h : registry.lookup name = some d) :
    d ∈ all ∧ d.name = name := by
  have hexact : ∀ d ∈ all, d.matching = .exact := by
    simp only [all, List.forall_mem_cons]
    exact ⟨rfl, rfl, rfl, rfl, rfl, rfl, rfl, rfl, rfl, rfl, rfl, rfl, rfl, rfl, nofun⟩
  exact Registry.mem_of_lookup (r := registry) hexact h

theorem flat_registry : registry.Flat := by
  have hflat : ∀ d ∈ all, ∀ p ∈ d.parts, p.block = true ∧ p.parts = [] := by
    have hif : ∀ p ∈ ifDirective.parts, p.block = true ∧ p.parts = [] := by
      simp only [ifDirective, List.forall_mem_cons]
      exact ⟨⟨rfl, rfl⟩, ⟨rfl, rfl⟩, nofun⟩
    have hswitch : ∀ p ∈ switchDirective.parts, p.block = true ∧ p.parts = [] := by
      simp only [switchDirective, List.forall_mem_cons]
      exact ⟨⟨rfl, rfl⟩, ⟨rfl, rfl⟩, nofun⟩
    have heach : ∀ p ∈ eachDirective.parts, p.block = true ∧ p.parts = [] := by
      simp only [eachDirective, List.forall_mem_cons]
      exact ⟨⟨rfl, rfl⟩, nofun⟩
    simp only [all, List.forall_mem_cons]
    exact ⟨hif, hswitch, heach, nofun, nofun, nofun, nofun, nofun, nofun, nofun, nofun, nofun, nofun, nofun, nofun⟩
  exact fun name d h => hflat d (mem_all_of_lookup h).1

end Standard

end Stencil.Directive
