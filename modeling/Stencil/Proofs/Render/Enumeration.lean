import Mathlib.Data.List.Nodup
import Mathlib.Data.List.Perm.Basic
import Mathlib.Logic.Equiv.Basic
import Stencil.Proofs.Render.Endings
import Stencil.Proofs.Render.Verbatim
import Stencil.Proofs.Text.Decimals
import Stencil.Proofs.Text.Order

/-! # Loops over maps

A map is enumerated in no certain order, and sorting leaves open how keys with one text follow one another. When the
keys have different texts there is one list nevertheless (`Lists.unique`), so that runs which enumerate maps in
different orders come to the same end (`Comes.eq_of_apart`). Keys that are all names, or all integers, have different
texts; an integer and a name may have one, and then they can change places (`Lists.swap`). -/

namespace Stencil

theorem Bytes.ofInt_injective {a b : Int} (h : ofInt a = ofInt b) : a = b := by
  have hdigits {m n : Nat} (h : ofNat m = ofNat n) : m = n := by rw [← natOfDigits_ofNat m, h, natOfDigits_ofNat]
  have hsign (m n : Nat) : ascii '-' :: ofNat m ≠ ofNat n := by
    intro h
    have hstart := startsWith_minus_ofNat n []
    rw [List.append_nil, ← h, startsWith_minus_cons] at hstart
    cases hstart
  rcases ofInt_cases a with ⟨ha, hofA⟩ | ⟨ha, hofA⟩ <;> rcases ofInt_cases b with ⟨hb, hofB⟩ | ⟨hb, hofB⟩ <;>
    rw [hofA, hofB] at h
  · have := hdigits (List.cons.inj h).2
    omega
  · exact absurd h (hsign _ _)
  · exact absurd h.symm (hsign _ _)
  · have := hdigits h
    omega

namespace Value

/-- The keys of a map with their values, as they are enumerated. -/
def pairs? : Value → Option (List (Value × Value))
  | .record fields => some (fields.map fun e => (.text e.1, e.2))
  | .table _ es => some es
  | _ => none

def Entry.pair (e : Entry) : Value × Value := (e.key, e.value)

/-- No two keys have the same text, and each of them is found. -/
structure Apart (pairs : List (Value × Value)) : Prop where
  texts : (pairs.map fun e => display e.1).Nodup
  found : ∀ e ∈ pairs, e.1.isNaN = false

/-- A way to list a map: each of its keys once, with its value, sorted by the texts of the keys. How keys with one text
follow one another is left open. -/
structure Lists (pairs : List (Value × Value)) (listed : List Entry) : Prop where
  found : ∀ e ∈ pairs, e.1.isNaN = false
  perm : (listed.map Entry.pair).Perm pairs
  sorted : listed.Pairwise fun a b => Bytes.le (display a.key) (display b.key) = true

section
variable {v : Value} {pairs pairs' : List (Value × Value)} {listed listed' : List Entry}

theorem Apart.perm (h : Apart pairs) (hperm : pairs'.Perm pairs) : Apart pairs' :=
  ⟨(hperm.map _).nodup_iff.mpr h.texts, fun e he => h.found e (hperm.mem_iff.mp he)⟩

theorem apart_of_keys (hkeys : (pairs.map (·.1)).Nodup) (hfound : ∀ e ∈ pairs, e.1.isNaN = false)
    (hinj : ∀ a ∈ pairs, ∀ b ∈ pairs, display a.1 = display b.1 → a.1 = b.1) : Apart pairs := by
  refine ⟨(List.nodup_map_iff_inj_on hkeys.of_map).mpr fun a ha b hb htext => ?_, hfound⟩
  exact List.inj_on_of_nodup_map hkeys ha hb (hinj a ha b hb htext)

theorem apart_of_texts (hkeys : (pairs.map (·.1)).Nodup) (h : ∀ e ∈ pairs, ∃ s, e.1 = .text s) : Apart pairs := by
  refine apart_of_keys hkeys (fun e he => ?_) fun a ha b hb htext => ?_
  · obtain ⟨s, hs⟩ := h e he
    rw [hs]
    rfl
  · obtain ⟨s, hs⟩ := h a ha
    obtain ⟨t, ht⟩ := h b hb
    rw [hs, ht] at htext ⊢
    exact congrArg text htext

theorem apart_of_ints (hkeys : (pairs.map (·.1)).Nodup) (h : ∀ e ∈ pairs, ∃ n, e.1 = .int n) : Apart pairs := by
  refine apart_of_keys hkeys (fun e he => ?_) fun a ha b hb htext => ?_
  · obtain ⟨n, hn⟩ := h e he
    rw [hn]
    rfl
  · obtain ⟨m, hm⟩ := h a ha
    obtain ⟨n, hn⟩ := h b hb
    rw [hm, hn] at htext ⊢
    exact congrArg int (Bytes.ofInt_injective htext)

/-- A loop over a map goes through one of its lists. -/
theorem lists_entries (hpairs : v.pairs? = some pairs) (hfound : ∀ e ∈ pairs, e.1.isNaN = false) :
    ∃ listed, v.entries? = some listed ∧ Lists pairs listed := by
  cases v with
  | record fields =>
    cases hpairs
    refine ⟨_, rfl, hfound, ?_, ?_⟩
    · rw [List.map_map]
      exact (List.mergeSort_perm fields _).map _
    · exact List.pairwise_map.mpr (List.pairwise_mergeSort (fun a b c => Bytes.le_trans a.1 b.1 c.1)
        (fun a b => Bytes.le_total a.1 b.1) fields)
  | table type es =>
    obtain rfl := Option.some.inj hpairs
    have hnone : (es.any fun e => e.1.isNaN) = false := by simpa using hfound
    refine ⟨_, by rw [entries?, hnone, if_neg (by decide)], hfound, ?_, ?_⟩
    · rw [List.map_map, show (Entry.pair ∘ fun e : Value × Value => (⟨e.1, e.2⟩ : Entry)) = id from rfl, List.map_id]
      exact List.mergeSort_perm es _
    · exact List.pairwise_map.mpr (List.pairwise_mergeSort
        (fun a b c => Bytes.le_trans (display a.1) (display b.1) (display c.1))
        (fun a b => Bytes.le_total (display a.1) (display b.1)) es)
  | _ => cases hpairs

/-- A map is listed as it is enumerated when that is the order of the texts already. -/
theorem entries?_of_sorted {type : KeyType} (hfound : ∀ e ∈ pairs, e.1.isNaN = false)
    (hsorted : pairs.Pairwise fun a b => Bytes.le (display a.1) (display b.1) = true) :
    (table type pairs).entries? = some (pairs.map fun e => ⟨e.1, e.2⟩) := by
  have hnone : (pairs.any fun e => e.1.isNaN) = false := by simpa using hfound
  rw [entries?, hnone, if_neg (by decide), List.mergeSort_of_pairwise hsorted]

theorem Entry.pair_injective : Function.Injective Entry.pair := fun a b hab => by
  obtain ⟨hkey, hvalue⟩ := Prod.mk.inj hab
  cases a
  cases b
  cases hkey
  cases hvalue
  rfl

/-- There is one list when the keys have different texts. -/
theorem Lists.unique (hapart : Apart pairs) (h : Lists pairs listed) (h' : Lists pairs listed') : listed' = listed := by
  have hperm : listed'.Perm listed :=
    (List.map_perm_map_iff Entry.pair_injective).mp (h'.perm.trans h.perm.symm)
  have htexts : (listed'.map fun e => display e.key).Nodup := by
    have hnodup := (hapart.perm h'.perm).texts
    rwa [List.map_map] at hnodup
  refine hperm.eq_of_pairwise (fun a b ha hb hab hba => ?_) h'.sorted h.sorted
  exact List.inj_on_of_nodup_map htexts ha (hperm.mem_iff.mpr hb) (Bytes.le_antisymm _ _ hab hba)

open Classical in
/-- Two keys with one text can change places in a list. -/
theorem Lists.swap {a b : Entry} (hkeys : (pairs.map (·.1)).Nodup) (h : Lists pairs listed) (ha : a ∈ listed)
    (hb : b ∈ listed) (htext : display a.key = display b.key) : Lists pairs (listed.map (Equiv.swap a b)) := by
  have hmem {e : Entry} (he : e ∈ listed) : Equiv.swap a b e ∈ listed := by
    rw [Equiv.swap_apply_def]
    split_ifs
    · exact hb
    · exact ha
    · exact he
  have hperm : (listed.map (Equiv.swap a b)).Perm listed := by
    have hnodup : listed.Nodup := (h.perm.nodup_iff.mpr hkeys.of_map).of_map
    refine (List.perm_ext_iff_of_nodup (hnodup.map (Equiv.swap a b).injective) hnodup).mpr fun e => ?_
    constructor <;> intro he
    · obtain ⟨x, hx, rfl⟩ := List.mem_map.mp he
      exact hmem hx
    · exact List.mem_map.mpr ⟨_, hmem he, Equiv.swap_apply_self ..⟩
  have hshown (e : Entry) : display (Equiv.swap a b e).key = display e.key := by
    rw [Equiv.swap_apply_def]
    split_ifs with hea heb
    · rw [hea, htext]
    · rw [heb, htext]
    · rfl
  refine ⟨h.found, (hperm.map _).trans h.perm, List.pairwise_map.mpr (h.sorted.imp fun hle => ?_)⟩
  rwa [hshown, hshown]

open Classical in
/-- The keys of a map with one list only have different texts. -/
theorem Lists.apart (hkeys : (pairs.map (·.1)).Nodup) (h : Lists pairs listed)
    (honly : ∀ listed', Lists pairs listed' → listed' = listed) : Apart pairs := by
  refine ⟨(List.nodup_map_iff_inj_on hkeys.of_map).mpr fun x hx y hy htext => ?_, h.found⟩
  have hlisted {z : Value × Value} (hz : z ∈ pairs) : (⟨z.1, z.2⟩ : Entry) ∈ listed := by
    obtain ⟨e, he, rfl⟩ := List.mem_map.mp (h.perm.mem_iff.mpr hz)
    exact he
  have hsame := (honly _ (h.swap hkeys (hlisted hx) (hlisted hy) htext)).trans (List.map_id _).symm
  have hxy := List.map_eq_map_iff.mp hsame _ (hlisted hx)
  rw [Equiv.swap_apply_left] at hxy
  exact congrArg Entry.pair hxy.symm

theorem Lists.perm_pairs (h : Lists pairs' listed) (hperm : pairs'.Perm pairs) : Lists pairs listed :=
  ⟨fun e he => h.found e (hperm.mem_iff.mpr he), h.perm.trans hperm, h.sorted⟩

end

end Value

namespace Render

open Value (Apart Lists)

/-! ### Runs that enumerate maps in any order -/

/-- What a step may come to, with what came of the program that it runs inside. -/
abbrev StepRule := (inside : Outcome) → Program → Instr → Frame → Step → Prop

/-- What a run may come to when its steps follow a rule. -/
inductive Comes (host : Host) (rule : StepRule) : Program → Frame → Outcome → Prop
  | finish {p : Program} {f : Frame} (hend : p.instrs[f.pc]? = none) : Comes host rule p f (f.finish p)
  | stop {p : Program} {f g : Frame} {i : Instr} {e : Failure} {inside : Outcome} (hi : p.instrs[f.pc]? = some i)
      (hinside : ∀ q m, nested? host i f.state = some (q, m) → Comes host rule q { state := m } inside)
      (hs : rule inside p i f (.stop e g)) : Comes host rule p f (.error e, g.abandon)
  | next {p : Program} {f g : Frame} {i : Instr} {inside o : Outcome} (hi : p.instrs[f.pc]? = some i)
      (hinside : ∀ q m, nested? host i f.state = some (q, m) → Comes host rule q { state := m } inside)
      (hs : rule inside p i f (.next g)) (rest : Comes host rule p g o) : Comes host rule p f o

/-- The loop that starts at an instruction is over a map with these keys and values. -/
def LoopsOver (host : Host) (i : Instr) (f : Frame) (pairs : List (Value × Value)) : Prop :=
  ∃ v, i.op = .range ∧ f.state.eval host i.expr = .ok v ∧ v.pairs? = some pairs

/-- A step of the machine; when it starts a loop over a map, the keys of the map have different texts. -/
def ApartStep (host : Host) : StepRule := fun inside p i f s =>
  step host (fun _ _ => inside) p i f = s ∧ ∀ pairs, LoopsOver host i f pairs → Apart pairs

/-- A step, where a loop over a map goes through any list of it. -/
inductive AnyStep (host : Host) (inside : Outcome) (p : Program) (i : Instr) (f : Frame) : Step → Prop
  | listed {pairs : List (Value × Value)} {listed : List Value.Entry} (hloop : LoopsOver host i f pairs)
      (hlists : Lists pairs listed) : AnyStep host inside p i f (.next (startLoop p i listed f))
  | plain (h : ∀ pairs listed, LoopsOver host i f pairs → ¬Lists pairs listed) :
      AnyStep host inside p i f (step host (fun _ _ => inside) p i f)

section
variable {host : Host} {p : Program} {i : Instr} {f : Frame} {inside : Outcome} {s : Step} {o o' : Outcome}

/-- A loop over a map with keys of different texts starts with the one list of the map. -/
theorem step_of_lists {pairs : List (Value × Value)} {listed : List Value.Entry} (hloop : LoopsOver host i f pairs)
    (hapart : Apart pairs) (hlists : Lists pairs listed) (run : Program → State → Outcome) :
    step host run p i f = .next (startLoop p i listed f) := by
  obtain ⟨v, hop, hv, hpairs⟩ := hloop
  obtain ⟨entries, hentries, hlisted⟩ := Value.lists_entries hpairs hapart.found
  obtain rfl := Lists.unique hapart hlists hlisted
  simp only [step, hop, hv, hentries]

theorem AnyStep.eq_step (h : AnyStep host inside p i f s) (hapart : ∀ pairs, LoopsOver host i f pairs → Apart pairs) :
    s = step host (fun _ _ => inside) p i f := by
  cases h with
  | listed hloop hlists => exact (step_of_lists hloop (hapart _ hloop) hlists _).symm
  | plain => rfl

theorem ApartStep.anyStep (h : ApartStep host inside p i f s) : AnyStep host inside p i f s := by
  obtain ⟨rfl, hapart⟩ := h
  by_cases hlisted : ∃ pairs listed, LoopsOver host i f pairs ∧ Lists pairs listed
  · obtain ⟨pairs, listed, hloop, hlists⟩ := hlisted
    rw [step_of_lists hloop (hapart _ hloop) hlists]
    exact .listed hloop hlists
  · exact .plain fun pairs listed hloop hlists => hlisted ⟨pairs, listed, hloop, hlists⟩

/-- A rule that allows more allows every run. -/
theorem Comes.mono {rule rule' : StepRule} (hrule : ∀ {inside p i f s}, rule inside p i f s → rule' inside p i f s)
    (h : Comes host rule p f o) : Comes host rule' p f o := by
  induction h with
  | finish hend => exact .finish hend
  | stop hi _ hs ih => exact .stop hi ih (hrule hs)
  | next hi _ hs _ ih ihrest => exact .next hi ih (hrule hs) ihrest

theorem Comes.ends (h : Comes host (ApartStep host) p f o) : Ends host p f o := by
  induction h with
  | finish hend => exact .finish hend
  | stop hi _ hs ih => exact .stop hi ih hs.1
  | next hi _ hs _ ih ihrest => exact .next hi ih hs.1 ihrest

/-- Whatever a run lists its maps like, it comes to the end of the machine. -/
theorem Comes.eq_of_apart (h : Comes host (ApartStep host) p f o) (h' : Comes host (AnyStep host) p f o') : o' = o := by
  -- the programs inside a step come to the same, so the step is the same
  have hsame {i : Instr} {f : Frame} {p : Program} {a b : Outcome}
      (ha : ∀ q m, nested? host i f.state = some (q, m) → ∀ o', Comes host (AnyStep host) q { state := m } o' → o' = a)
      (hb : ∀ q m, nested? host i f.state = some (q, m) → Comes host (AnyStep host) q { state := m } b) :
      step host (fun _ _ => b) p i f = step host (fun _ _ => a) p i f :=
    step_congr (fun q m hnested => ha q m hnested b (hb q m hnested)) p
  induction h generalizing o' with
  | finish hend =>
    cases h' with
    | finish => rfl
    | stop hi => exact absurd (hend.symm.trans hi) nofun
    | next hi => exact absurd (hend.symm.trans hi) nofun
  | stop hi _ hs ih =>
    obtain ⟨hs, hapart⟩ := hs
    cases h' with
    | finish hend => exact absurd (hend.symm.trans hi) nofun
    | stop hi' hinside' hs' =>
      cases hi.symm.trans hi'
      have heq := (hs'.eq_step hapart).trans ((hsame ih hinside').trans hs)
      cases heq
      rfl
    | next hi' hinside' hs' =>
      cases hi.symm.trans hi'
      exact nomatch (hs'.eq_step hapart).trans ((hsame ih hinside').trans hs)
  | next hi _ hs _ ih ihrest =>
    obtain ⟨hs, hapart⟩ := hs
    cases h' with
    | finish hend => exact absurd (hend.symm.trans hi) nofun
    | stop hi' hinside' hs' =>
      cases hi.symm.trans hi'
      exact nomatch (hs'.eq_step hapart).trans ((hsame ih hinside').trans hs)
    | next hi' hinside' hs' rest' =>
      cases hi.symm.trans hi'
      have heq := (hs'.eq_step hapart).trans ((hsame ih hinside').trans hs)
      cases heq
      exact ihrest rest'

end

/-- A loop over a map goes through all its keys in the order of their texts, and this is one list exactly when the
keys have different texts, as keys do that are all names or all integers. Then the loop is the same for every
enumeration of the map, and a run in which all loops are over such maps comes to one end, whatever lists it goes
through. -/
theorem loops_determined (host : Host) :
    (∀ (v : Value) (pairs : List (Value × Value)), v.pairs? = some pairs → (pairs.map (·.1)).Nodup →
      (∀ e ∈ pairs, e.1.isNaN = false) → ∃ listed, v.entries? = some listed ∧ Lists pairs listed ∧
        (Apart pairs ↔ ∀ listed', Lists pairs listed' → listed' = listed) ∧
        ((∀ e ∈ pairs, ∃ s, e.1 = .text s) ∨ (∀ e ∈ pairs, ∃ n, e.1 = .int n) → Apart pairs) ∧
        (Apart pairs → ∀ (v' : Value) (pairs' : List (Value × Value)), v'.pairs? = some pairs' →
          pairs'.Perm pairs → v'.entries? = some listed)) ∧
    ∀ (p : Program) (f : Frame) (o : Outcome), Comes host (ApartStep host) p f o →
      (∃ n, ∀ fuel, n ≤ fuel → exec host fuel p f = o) ∧ Comes host (AnyStep host) p f o ∧
        ∀ o', Comes host (AnyStep host) p f o' → o' = o := by
  refine ⟨fun v pairs hpairs hkeys hfound => ?_, fun p f o h => ?_⟩
  · obtain ⟨listed, hentries, hlists⟩ := Value.lists_entries hpairs hfound
    refine ⟨listed, hentries, hlists, ⟨fun hapart _ => hlists.unique hapart, hlists.apart hkeys⟩,
      fun halike => halike.elim (Value.apart_of_texts hkeys) (Value.apart_of_ints hkeys), ?_⟩
    intro hapart v' pairs' hpairs' hperm
    obtain ⟨listed', hentries', hlists'⟩ := Value.lists_entries hpairs' (hapart.perm hperm).found
    rw [hentries', hlists.unique hapart (hlists'.perm_pairs hperm)]
  · exact ⟨exec_of_ends h.ends, h.mono ApartStep.anyStep, fun _ => h.eq_of_apart⟩

/-- A program that writes what a loop goes through. -/
def looping : Program where
  name := "page"
  instrs := [{ op := .range, expr := "xs", name := "x", label := 1 }, .mark 0, .emit "x" true,
    { op := .next, label := 0 }, .mark 1]

/-- A render of data with a map that has these keys and values. -/
def mapped (pairs : List (Value × Value)) : Frame := { state := .root [("xs", .table .any pairs)] {} }

/-- A map with two numbers. -/
def numbered : List (Value × Value) := [(.int 9, .text "b"), (.int 10, .text "a")]

/-- A step that starts no loop and runs no program inside. -/
theorem Comes.plain {host : Host} {p : Program} {f g : Frame} {i : Instr} {o : Outcome} (hi : p.instrs[f.pc]? = some i)
    (hop : i.op ≠ .range) (hnested : nested? host i f.state = none)
    (hs : step host (fun _ m => (.ok (), m)) p i f = .next g) (rest : Comes host (ApartStep host) p g o) :
    Comes host (ApartStep host) p f o := by
  have hinside (q : Program) (m : State) (h : nested? host i f.state = some (q, m)) : False := by
    rw [hnested] at h
    cases h
  have hstep : ApartStep host o p i f (.next g) := by
    refine ⟨?_, fun pairs hloop => ?_⟩
    · rw [← hs]
      exact step_congr (fun q m h => (hinside q m h).elim) p
    · obtain ⟨v, hrange, -⟩ := hloop
      exact absurd hrange hop
  exact .next hi (fun q m h => (hinside q m h).elim) hstep rest

/-- The key `10` comes before the key `9`, since their texts do, whatever order the map has them in. -/
theorem loops_determined_numbers : Apart numbered ∧
    (∀ pairs, pairs.Perm numbered →
      (Value.table .any pairs).entries? = some [⟨.int 10, .text "a"⟩, ⟨.int 9, .text "b"⟩]) ∧
    ∃ o, Comes namesHost (ApartStep namesHost) looping (mapped numbered) o ∧ o.2.top.out = "ab" ∧
      (∃ n, ∀ fuel, n ≤ fuel → exec namesHost fuel looping (mapped numbered) = o) ∧
      ∀ o', Comes namesHost (AnyStep namesHost) looping (mapped numbered) o' → o' = o := by
  have hapart : Apart numbered := ⟨by decide, by simp [numbered, Value.isNaN]⟩
  have hlists : Lists numbered [⟨.int 10, .text "a"⟩, ⟨.int 9, .text "b"⟩] :=
    ⟨hapart.found, .swap .., by simp only [List.pairwise_cons]; decide⟩
  have hloop : LoopsOver namesHost looping.instrs[0] (mapped numbered) numbered := ⟨_, rfl, rfl, rfl⟩
  have honly (pairs : List (Value × Value)) (h : LoopsOver namesHost looping.instrs[0] (mapped numbered) pairs) :
      Apart pairs := by
    obtain ⟨v, -, hv, hpairs⟩ := h
    cases hv
    cases hpairs
    exact hapart
  have hstart : ApartStep namesHost (.ok (), (mapped numbered).state) looping looping.instrs[0] (mapped numbered) _ :=
    ⟨step_of_lists hloop hapart hlists _, honly⟩
  have hcomes : ∃ o, Comes namesHost (ApartStep namesHost) looping (mapped numbered) o ∧ o.2.top.out = "ab" :=
    ⟨_, .next rfl nofun hstart
      -- the body of the loop for one key, then for the other
      (.plain rfl nofun rfl rfl (.plain rfl nofun rfl rfl (.plain rfl nofun rfl rfl
        (.plain rfl nofun rfl rfl (.plain rfl nofun rfl rfl (.plain rfl nofun rfl rfl (.finish rfl))))))), rfl⟩
  obtain ⟨o, hcomes, hout⟩ := hcomes
  obtain ⟨hmaps, hruns⟩ := loops_determined namesHost
  obtain ⟨listed, -, -, honlyList, -, hsame⟩ :=
    hmaps (.table .any numbered) numbered rfl (by simp [numbered]) hapart.found
  obtain rfl := honlyList.mp hapart _ hlists
  obtain ⟨hexec, -, honce⟩ := hruns _ _ o hcomes
  exact ⟨hapart, fun pairs => hsame hapart _ pairs rfl, o, hcomes, hout, hexec, honce⟩

/-- A number and a name with one text follow one another as the map happens to have them. -/
theorem not_loops_determined : ¬ ∀ (v v' : Value) (pairs pairs' : List (Value × Value)), v.pairs? = some pairs →
    v'.pairs? = some pairs' → (pairs.map (·.1)).Nodup → (∀ e ∈ pairs, e.1.isNaN = false) → pairs'.Perm pairs →
      v'.entries? = v.entries? := by
  intro h
  have hkeys : (([(.int 1, .text "a"), (.text "1", .text "b")] : List (Value × Value)).map (·.1)).Nodup := by
    refine List.nodup_cons.mpr ⟨?_, List.nodup_singleton _⟩
    rw [List.map_singleton, List.mem_singleton]
    nofun
  have hfound (a b : Value × Value) (ha : a.1.isNaN = false) (hb : b.1.isNaN = false) :
      ∀ e ∈ [a, b], e.1.isNaN = false := by
    simp [ha, hb]
  have hsame := h (.table .any [(.int 1, .text "a"), (.text "1", .text "b")])
    (.table .any [(.text "1", .text "b"), (.int 1, .text "a")]) _ _ rfl rfl hkeys (hfound _ _ rfl rfl) (.swap ..)
  have hsorted (a b : Value × Value) (hle : Bytes.le (Value.display a.1) (Value.display b.1) = true) :
      [a, b].Pairwise fun a b => Bytes.le (Value.display a.1) (Value.display b.1) = true := by
    simpa using hle
  rw [Value.entries?_of_sorted (hfound _ _ rfl rfl) (hsorted _ _ (by decide)),
    Value.entries?_of_sorted (hfound _ _ rfl rfl) (hsorted _ _ (by decide))] at hsame
  cases hsame

end Render

end Stencil
