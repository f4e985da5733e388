import Stencil.Proofs.Build.Reuse
import Stencil.Proofs.Cache.Units
import Stencil.Proofs.Compile.Reuse

/-! # Builds that share a store

Templates are added to one builder after another, and change in between, while all builders keep what they compile in
one store. Each record that the store holds was made of a template that was added before (`Submission.exists_puts`), so
what comes from the store is what compiling would give (`Submission.served_as_compiled`), as long as digests tell texts
apart, records are read as they were written, and nothing comes to be found where an include fell back to its path. -/

namespace Stencil

open Compile (Resolver StaysMissing WentInto compileSource)
open Directive.Standard (registry)
open Text.Digest (sha256)
open Text.Utf8 (isValid mend mend_of_isValid)

/-! ### Stores -/

/-- A store gives for a digest only what was put under it: `Holds` says that all that it has is among some puts. -/
structure UnitStore.Honest {κ : Type} (units : UnitStore κ) (Holds : κ → List (Bytes × Bytes) → Prop) : Prop where
  given : ∀ {k puts text data}, Holds k puts → (units.get (sha256 text) k).1 = some data → (sha256 text, data) ∈ puts
  get : ∀ {k puts} text, Holds k puts → Holds (units.get (sha256 text) k).2 puts
  put : ∀ {k puts} text data deps, Holds k puts →
    Holds (units.put (sha256 text) data deps k).2 (puts ++ [(sha256 text, data)])

theorem UnitStore.honest_memory :
    UnitStore.memory.Honest fun held puts => ∀ key data, Assoc.get? key held = some data → (key, data) ∈ puts where
  given h hget := h _ _ hget
  get _ h := h
  put {held puts} text data _ h key data' hget := by
    by_cases hkey : key = sha256 text
    · subst hkey
      have hdata : some data = some data' := (Assoc.get?_insert_self ..).symm.trans hget
      obtain rfl := Option.some.inj hdata
      exact List.mem_append_right _ List.mem_cons_self
    · exact List.mem_append_left _ (h key data' ((Assoc.get?_insert_ne hkey _ _).symm.trans hget))

/-- All that was put into a cache, and only under digests, is among some puts. -/
def UnitCache.PutAmong (rs : List (Instant × Request)) (puts : List (Bytes × Bytes)) : Prop :=
  ∀ now key data deps, (now, .put key data deps) ∈ rs → (∃ text, key = sha256 text) ∧ (key, data) ∈ puts

/-- Digests have files of their own. -/
theorem UnitCache.sha256_of_unitFile {a b : Bytes} (h : unitFile (sha256 a) = unitFile (sha256 b)) :
    sha256 a = sha256 b := by
  have hplain (text : Bytes) : (sha256 text).length ≤ 100 ∧ (sha256 text).all isNameByte = true :=
    ⟨by rw [Text.Digest.length_sha256]; decide, Text.Digest.all_sha256 (by decide) text⟩
  exact eq_of_unitFile (hplain a) (hplain b) h

theorem UnitStore.honest_cached :
    UnitStore.cached.Honest fun t puts => ∃ rs, UnitCache.Faithful t.cache rs ∧ UnitCache.PutAmong rs puts where
  given := by
    rintro t puts text data ⟨rs, hfaithful, hputs⟩ hget
    obtain ⟨now, key, deps, hmem, hfile⟩ := UnitCache.exists_put_of_lastPut (hfaithful.given hget)
    obtain ⟨⟨text', rfl⟩, hput⟩ := hputs now key data deps hmem
    rwa [UnitCache.sha256_of_unitFile (of_decide_eq_true hfile)] at hput
  get := by
    rintro t puts text ⟨rs, hfaithful, hputs⟩
    have hserved : (t.cache.serve t.now (.get (sha256 text))).Faithful (rs ++ [(t.now, .get (sha256 text))]) :=
      hfaithful.serve _
    refine ⟨_, hserved, fun now key data deps hmem => ?_⟩
    rcases List.mem_append.mp hmem with hmem | hmem
    · exact hputs now key data deps hmem
    · cases List.mem_singleton.mp hmem
  put := by
    rintro t puts text data deps ⟨rs, hfaithful, hputs⟩
    have hserved : (t.cache.serve t.now (.put (sha256 text) data deps)).Faithful
        (rs ++ [(t.now, .put (sha256 text) data deps)]) := hfaithful.serve _
    refine ⟨_, hserved, fun now key data' deps' hmem => ?_⟩
    rcases List.mem_append.mp hmem with hmem | hmem
    · exact (hputs now key data' deps' hmem).imp_right (List.mem_append_left _)
    · cases List.mem_singleton.mp hmem
      exact ⟨⟨text, rfl⟩, List.mem_append_right _ List.mem_cons_self⟩

/-! ### Compilations that were cancelled -/

namespace Compile

theorem generate_nil_canceled (options : Options) (path : Bytes) :
    (generate registry options path true []).result = (generate registry options path false []).result := by
  have hahead : options.ahead registry [] = [] := by simp [Options.ahead, directiveTagsList]
  rw [generate_stages registry options path [] (by simp [hahead]), generate_stages registry options path [] (by simp)]
  rfl

/-- Only a template without nodes is compiled in a cancelled activity, and to what it is compiled to else. -/
theorem compileSource_of_canceled {options : Options} {path src : Bytes} {t : Template}
    (h : (compileSource registry options path true src).result = .ok t) :
    (compileSource registry options path false src).result = .ok t := by
  unfold compileSource at h ⊢
  cases hnodes : Markup.parse registry options.parse path src with
  | error d => simp [hnodes] at h
  | ok nodes =>
    simp only [hnodes] at h ⊢
    cases nodes with
    | nil => exact generate_nil_canceled options path ▸ h
    | cons n ns =>
      by_cases hahead : true ∧ options.ahead registry (n :: ns) ≠ []
      · rw [generate_stopped registry options path (n :: ns) hahead] at h
        cases h
      have hstart : ((options.env registry path (n :: ns)).hooked .pre { canceled := true }).canceled = true :=
        List.foldlRecOn (motive := fun st : State => st.canceled = true) registry.definitions _ rfl fun _ hst d _ =>
          canceled_runFileHook _ d _ hst
      rw [generate_stages registry options path (n :: ns) hahead] at h
      simp [compileNodes, selects, hstart, Env.outcome] at h

end Compile

/-! ### Templates that are added -/

/-- A template that is added to a builder, among the templates of that time. -/
structure Submission where
  builder : Builder
  resolver : Resolver
  canceled : Bool := false
  path : Bytes
  src : Bytes

namespace Submission

variable {κ : Type} (options : Compile.Options)

/-- The builder, with the standard directives and with the options that all builders of a history share. -/
def adder (s : Submission) : Builder :=
  { s.builder with registry, options := { options with resolver := some s.resolver } }

/-- Adds the template. -/
def addTo (s : Submission) (store : Option (UnitStore κ)) (k : κ) : Builder.Added κ :=
  (s.adder options).addFile store s.canceled s.path s.src k

/-- What a store holds after templates were added one after the other. -/
def addAll (units : UnitStore κ) (k : κ) (ss : List Submission) : κ :=
  ss.foldl (fun k s => (s.addTo options (some units) k).store) k

/-- The template comes from the store. -/
def IsServed (s : Submission) (units : UnitStore κ) (k : κ) : Prop :=
  ((s.adder options).kept? units s.canceled ((s.adder options).unitKey s.path s.src) k).1.isSome = true

/-- What the template compiles to when nothing is cancelled. -/
def compiled (s : Submission) : Except Failure Compile.Template :=
  (compileSource registry { options with resolver := some s.resolver } s.path false s.src).result

/-- The text whose digest is the key of the template. -/
def identity (s : Submission) : Bytes :=
  Bytes.join [0] ([s.path, s.src, options.fingerprint] ++ registry.definitions.map (·.name))

theorem unitKey_adder (s : Submission) : (s.adder options).unitKey s.path s.src = sha256 (s.identity options) := rfl

/-- A record that the template has, with its key. -/
def Makes (s : Submission) (record : Bytes × Bytes) : Prop :=
  ∃ t p, s.compiled options = .ok t ∧ t.errors = [] ∧ t.program = .ok p ∧
    record = (sha256 (s.identity options), UnitRecord.encode p t)

variable {options} {units : UnitStore κ} {Holds : κ → List (Bytes × Bytes) → Prop} {k : κ}

theorem compiled_of_template? {s : Submission} {t : Compile.Template} {p : Program}
    (h : (s.adder options).template? s.canceled s.path s.src = some (t, p)) :
    s.compiled options = .ok t ∧ t.program = .ok p := by
  obtain ⟨hresult, hprogram⟩ := Builder.result_of_template? h
  refine ⟨?_, hprogram⟩
  cases hcanceled : s.canceled with
  | false =>
    rw [hcanceled] at hresult
    exact hresult
  | true =>
    rw [hcanceled] at hresult
    exact Compile.compileSource_of_canceled hresult

variable (options) in
/-- Adding a template puts at most its record into the store. -/
theorem exists_puts_addTo (hunits : units.Honest Holds) (s : Submission) {puts : List (Bytes × Bytes)}
    (hk : Holds k puts) : ∃ puts', Holds (s.addTo options (some units) k).store puts' ∧
      ∀ put ∈ puts', put ∈ puts ∨ s.Makes options put := by
  have hasked : Holds (units.get ((s.adder options).unitKey s.path s.src) k).2 puts :=
    hunits.get (s.identity options) hk
  unfold addTo Builder.addFile
  rcases hkept : (s.adder options).kept? units s.canceled ((s.adder options).unitKey s.path s.src) k with ⟨_ | r, k'⟩
  all_goals
    obtain rfl : (units.get ((s.adder options).unitKey s.path s.src) k).2 = k' := congrArg (·.2) hkept
    simp only [hkept]
  · cases htemplate : (s.adder options).template? s.canceled s.path s.src with
    | none =>
      rw [(Builder.compileFile_of_none htemplate).2.1]
      exact ⟨puts, hasked, fun put h => .inl h⟩
    | some tp =>
      obtain ⟨t, p⟩ := tp
      rw [(Builder.compileFile_of_some htemplate).2.1, Builder.putUnit]
      obtain ⟨hcompiled, hprogram⟩ := compiled_of_template? htemplate
      by_cases herrors : t.errors = []
      · rw [if_pos herrors]
        refine ⟨_, hunits.put (s.identity options) _ _ hasked, fun put h => ?_⟩
        refine (List.mem_append.mp h).imp_right fun h => ?_
        exact ⟨t, p, hcompiled, herrors, hprogram, List.mem_singleton.mp h⟩
      · rw [if_neg herrors]
        exact ⟨puts, hasked, fun put h => .inl h⟩
  · exact ⟨puts, hasked, fun put h => .inl h⟩

/-- All that a store holds after a history is records of templates that were added. -/
theorem exists_puts (hunits : units.Honest Holds) (hk : Holds k []) (ss : List Submission) :
    ∃ puts, Holds (addAll options units k ss) puts ∧ ∀ put ∈ puts, ∃ s ∈ ss, s.Makes options put := by
  induction ss using List.reverseRecOn with
  | nil => exact ⟨[], hk, nofun⟩
  | append_singleton ss s ih =>
    obtain ⟨puts, hholds, hputs⟩ := ih
    obtain ⟨puts', hholds', hputs'⟩ := exists_puts_addTo options hunits s hholds
    refine ⟨puts', ?_, fun put hmem => ?_⟩
    · rw [addAll, List.foldl_append]
      exact hholds'
    · rcases hputs' put hmem with hmem | hmakes
      · obtain ⟨s', hs', hmakes⟩ := hputs put hmem
        exact ⟨s', List.mem_append_left _ hs', hmakes⟩
      · exact ⟨s, List.mem_append_right _ List.mem_cons_self, hmakes⟩

/-! ### Keys -/

theorem identity_eq (s : Submission) : s.identity options =
    s.path ++ 0 :: (s.src ++ 0 :: Bytes.join [0] (options.fingerprint :: registry.definitions.map (·.name))) := rfl

/-- The key tells the path from the source as long as no path has a zero byte. -/
theorem eq_of_identity {s s' : Submission} (hs : 0 ∉ s.path) (hs' : 0 ∉ s'.path)
    (h : s.identity options = s'.identity options) : s.path = s'.path ∧ s.src = s'.src := by
  rw [identity_eq, identity_eq] at h
  rcases List.append_eq_append_iff.mp h with ⟨mid, hpath, hrest⟩ | ⟨mid, hpath, hrest⟩ <;>
    rcases mid with _ | ⟨c, mid⟩
  · exact ⟨by simpa using hpath.symm, by simpa using hrest⟩
  · obtain ⟨rfl, -⟩ := List.cons.inj hrest
    exact absurd (hpath ▸ List.mem_append_right _ List.mem_cons_self) hs'
  · exact ⟨by simpa using hpath, by simpa using hrest.symm⟩
  · obtain ⟨rfl, -⟩ := List.cons.inj hrest
    exact absurd (hpath ▸ List.mem_append_right _ List.mem_cons_self) hs

-- a zero byte may belong to the path or to the source
example (b : Builder) (r : Resolver) (o : Compile.Options) :
    identity o ⟨b, r, false, "a", "b\x00c"⟩ = identity o ⟨b, r, false, "a\x00b", "c"⟩ := rfl

/-! ### What comes from the store -/

variable (options) in
/-- Texts of which digests are taken: for the key of the template, and of templates that it may include. -/
def Digests (s : Submission) (text : Bytes) : Prop := text = s.identity options ∨ ∃ path, s.resolver path = .ok text

variable (options) in
/-- Among the templates of another time, includes that fell back to their paths still would. -/
def FallsBackAs (s s' : Submission) : Prop :=
  ∀ t path text nodes, s.compiled options = .ok t → WentInto s.resolver t.deps s.path s.src path text →
    Markup.parse registry options.parse path text = .ok nodes →
      StaysMissing s.resolver s'.resolver (Markup.Node.tagsList nodes)

variable (options) in
/-- The names and texts in the record of the template are read as they were written. -/
def IsPlain (s : Submission) : Prop :=
  ∀ t, s.compiled options = .ok t → (∀ dep ∈ t.deps, isValid dep.1 = true) ∧
    ∀ channel ∈ t.channels, isValid channel.1 = true ∧ isValid channel.2 = true

variable (options) in
/-- Nothing in the templates added before gets in the way of a template that comes from the store. -/
structure Undisturbed (before : List Submission) (s : Submission) : Prop where
  running : s.canceled = false
  digests : Set.InjOn sha256 {text | ∃ s' ∈ s :: before, s'.Digests options text}
  paths : ∀ s' ∈ s :: before, 0 ∉ s'.path
  plain : ∀ s' ∈ before, s'.IsPlain options
  missing : ∀ s' ∈ before, s'.path = s.path → s'.src = s.src → s'.FallsBackAs options s

section
variable {before : List Submission} {s s' : Submission} {t : Compile.Template} {p : Program}

theorem found_of_isFresh (ht : s'.compiled options = .ok t) (hvalid : ∀ dep ∈ t.deps, isValid dep.1 = true)
    (hfresh : (UnitRecord.ofTemplate p t).isFresh (some s.resolver) false = true) (path digest : Bytes)
    (hdep : Assoc.get? path t.deps = some digest) : ∃ text, s.resolver path = .ok text ∧ sha256 text = digest := by
  obtain ⟨src, -, hdigest⟩ := Compile.recorded_of_compileSource ht path digest hdep
  have hmend : mend digest = digest := mend_of_isValid (hdigest ▸ Text.Digest.isValid_sha256 src)
  have hmem : (path, digest) ∈ UnitRecord.reread t.deps := by
    rw [UnitRecord.reread_of_nodup (Compile.nodup_deps ht) hvalid]
    refine (Assoc.perm_sorted _).mem_iff.mpr (List.mem_map.mpr ⟨_, Assoc.mem_of_get? hdep, ?_⟩)
    rw [hmend]
  have hfound := List.all_eq_true.mp hfresh _ hmem
  simp only [Resolver.find, Bool.false_eq_true, if_false] at hfound
  split at hfound
  · rename_i text htext
    exact ⟨text, htext, beq_iff_eq.mp hfound⟩
  · cases hfound

/-- A template with a record that is still fresh compiles to what the record was made of. -/
theorem compiled_of_isFresh (h : Undisturbed options before s) (hs' : s' ∈ before) (hpath : s'.path = s.path)
    (hsrc : s'.src = s.src) (ht : s'.compiled options = .ok t) (herrors : t.errors = [])
    (hfresh : (UnitRecord.ofTemplate p t).isFresh (some s.resolver) false = true) : s.compiled options = .ok t := by
  have hfound := found_of_isFresh ht (h.plain s' hs' t ht).1 hfresh
  have hdigests (path a b : Bytes) (ha : s'.resolver path = .ok a) (hb : s.resolver path = .ok b)
      (heq : sha256 a = sha256 b) : a = b :=
    h.digests ⟨s', List.mem_cons_of_mem s hs', .inr ⟨path, ha⟩⟩ ⟨s, List.mem_cons_self, .inr ⟨path, hb⟩⟩ heq
  have hmissing := fun path text nodes => h.missing s' hs' hpath hsrc t path text nodes ht
  unfold compiled at ht ⊢
  rw [hpath, hsrc] at ht hmissing
  exact Compile.compileSource_among options s.path s.src s'.resolver s.resolver t ht herrors hfound hdigests hmissing

/-- What comes from the store is the record of what the template compiles to. -/
theorem compiled_of_kept? (hunits : units.Honest Holds) (hk : Holds k []) (h : Undisturbed options before s)
    {r : UnitRecord} (hkept : ((s.adder options).kept? units s.canceled ((s.adder options).unitKey s.path s.src)
      (addAll options units k before)).1 = some r) :
    ∃ t p, s.compiled options = .ok t ∧ t.errors = [] ∧ t.program = .ok p ∧ r = UnitRecord.ofTemplate p t ∧
      ∀ channel ∈ t.channels, isValid channel.1 = true ∧ isValid channel.2 = true := by
  obtain ⟨puts, hholds, hputs⟩ := exists_puts hunits hk before
  obtain ⟨data, hdata⟩ : ∃ data,
      (units.get (sha256 (s.identity options)) (addAll options units k before)).1 = some data := by
    cases hget : (units.get (sha256 (s.identity options)) (addAll options units k before)).1 with
    | none => simp [Builder.kept?, unitKey_adder, hget] at hkept
    | some data => exact ⟨data, rfl⟩
  obtain ⟨s', hs', t, p, ht, herrors, hprogram, hrecord⟩ := hputs _ (hunits.given hholds hdata)
  obtain ⟨hkey, rfl⟩ := Prod.mk.inj hrecord
  have hidentity : s'.identity options = s.identity options :=
    h.digests ⟨s', List.mem_cons_of_mem s hs', .inl rfl⟩ ⟨s, List.mem_cons_self, .inl rfl⟩ hkey.symm
  obtain ⟨hpath, hsrc⟩ :=
    eq_of_identity (h.paths s' (List.mem_cons_of_mem s hs')) (h.paths s List.mem_cons_self) hidentity
  rw [unitKey_adder, Builder.kept?_stored _ _ hdata] at hkept
  split at hkept
  · rename_i hfresh
    rw [h.running] at hfresh
    exact ⟨t, p, compiled_of_isFresh h hs' hpath hsrc ht herrors hfresh, herrors, hprogram,
      (Option.some.inj hkept).symm, (h.plain s' hs' t ht).2⟩
  · cases hkept

/-- What comes of adding a template that compiles, without a store. -/
theorem addTo_none (hrunning : s.canceled = false) (ht : s.compiled options = .ok t) (hp : t.program = .ok p) (k : κ) :
    (s.addTo options none k).builder = (s.adder options).addUnit s.path p.encode t.channels ∧
      (s.addTo options none k).errors = t.errors ∧ (s.addTo options none k).failure = none := by
  have hresult :
      (compileSource (s.adder options).registry (s.adder options).options s.path false s.src).result = .ok t := ht
  simp only [addTo, Builder.addFile, Builder.compileFile, hrunning, hresult, hp, ite_self, and_self]

/-- What comes of adding a template that comes from the store. -/
theorem addTo_of_kept? {r : UnitRecord} (hkept : ((s.adder options).kept? units s.canceled
      ((s.adder options).unitKey s.path s.src) k).1 = some r) :
    (s.addTo options (some units) k).builder = (s.adder options).addUnit s.path r.program r.channels ∧
      (s.addTo options (some units) k).errors = [] ∧ (s.addTo options (some units) k).failure = none := by
  unfold addTo Builder.addFile
  rcases hfound : (s.adder options).kept? units s.canceled ((s.adder options).unitKey s.path s.src) k with ⟨r', k'⟩
  rw [hfound] at hkept
  obtain rfl : r' = some r := hkept
  simp only [hfound, and_self]

/-- A store makes no difference for the builder, and what comes from it is reported as if it had been compiled. -/
theorem addTo_eq_of_undisturbed (hunits : units.Honest Holds) (hk : Holds k []) (h : Undisturbed options before s) :
    let stored := addAll options units k before
    (s.addTo options (some units) stored).builder = (s.addTo options none stored).builder ∧
      (s.IsServed options units stored →
        (s.addTo options (some units) stored).errors = (s.addTo options none stored).errors ∧
        (s.addTo options (some units) stored).failure = (s.addTo options none stored).failure) := by
  intro stored
  cases hkept : ((s.adder options).kept? units s.canceled ((s.adder options).unitKey s.path s.src) stored).1 with
  | none =>
    refine ⟨?_, fun hserved => ?_⟩
    · simp only [addTo, Builder.addFile_eq, Builder.unit?, Option.bind_some, Option.bind_none, hkept]
    · rw [IsServed, hkept] at hserved
      cases hserved
  | some r =>
    obtain ⟨t, p, ht, herrors, hprogram, rfl, hvalid⟩ := compiled_of_kept? hunits hk h hkept
    obtain ⟨hbuilder, herrors', hfailure⟩ := addTo_none h.running ht hprogram stored
    obtain ⟨hbuilder', herrors'', hfailure'⟩ := addTo_of_kept? hkept
    have hchannels : UnitRecord.reread t.channels = Assoc.sorted t.channels := by
      rw [UnitRecord.reread_of_nodup (Compile.nodup_channels ht) fun channel hc => (hvalid channel hc).1,
        UnitRecord.map_mend_of_isValid fun channel hc => (hvalid channel hc).2]
    refine ⟨?_, fun _ => ⟨herrors''.trans (herrors'.trans herrors).symm, hfailure'.trans hfailure.symm⟩⟩
    rw [hbuilder, hbuilder', UnitRecord.ofTemplate, hchannels, Builder.addUnit_sorted]

/-- The cache on disk makes no difference if there was nothing in it at first. -/
theorem addTo_cached_eq {t : TimedCache} (hempty : t.cache.entries = []) (h : Undisturbed options before s) :
    let stored := addAll options .cached t before
    (s.addTo options (some .cached) stored).builder = (s.addTo options none stored).builder := by
  have hstart : ∃ rs, UnitCache.Faithful t.cache rs ∧ UnitCache.PutAmong rs [] := ⟨[], .of_empty hempty [], nofun⟩
  exact (addTo_eq_of_undisturbed UnitStore.honest_cached hstart h).1

end

theorem mem_of_ofTable {files : Assoc Bytes Bytes} {path text : Bytes} (h : Resolver.ofTable files path = .ok text) :
    (path, text) ∈ files := by
  unfold Resolver.ofTable at h
  split at h
  · rename_i src hget
    obtain rfl : src = text := Except.ok.inj h
    exact Assoc.mem_of_get? hget
  · cases h

/-- Where no more is found, includes still fall back. -/
theorem staysMissing_of_fewer {old new : Resolver} (h : ∀ p text, new p = .ok text → ∃ text', old p = .ok text')
    (tags : List Markup.Tag) : StaysMissing old new tags := by
  intro tag _ _ p _ e he
  cases hp : new p with
  | error e' => exact ⟨e', rfl⟩
  | ok text =>
    obtain ⟨text', htext⟩ := h p text hp
    rw [he] at htext
    cases htext

/-- **What comes from the store is what compiling gives.** A template compiles to the same among other templates that
have the digests that it recorded; so whatever was added before with the same store, and however the templates changed
in between, a template that comes from the store is added as it would be without one. Includes that fell back to their
paths must still do so, since a path where nothing is found is not recorded. -/
theorem served_as_compiled (options : Compile.Options) :
    (∀ (path src : Bytes) (old new : Resolver) (t : Compile.Template),
      (compileSource registry { options with resolver := some old } path false src).result = .ok t → t.errors = [] →
      (∀ p digest, Assoc.get? p t.deps = some digest → ∃ text, new p = .ok text ∧ sha256 text = digest) →
      (∀ p a b, old p = .ok a → new p = .ok b → sha256 a = sha256 b → a = b) →
      (∀ p text nodes, WentInto old t.deps path src p text → Markup.parse registry options.parse p text = .ok nodes →
        StaysMissing old new (Markup.Node.tagsList nodes)) →
      (compileSource registry { options with resolver := some new } path false src).result = .ok t) ∧
    ∀ {κ : Type} (units : UnitStore κ) (Holds : κ → List (Bytes × Bytes) → Prop) (k : κ),
      units.Honest Holds → Holds k [] → ∀ (before : List Submission) (s : Submission), Undisturbed options before s →
        let stored := addAll options units k before
        (s.addTo options (some units) stored).builder = (s.addTo options none stored).builder ∧
          (s.IsServed options units stored →
            (s.addTo options (some units) stored).errors = (s.addTo options none stored).errors ∧
            (s.addTo options (some units) stored).failure = (s.addTo options none stored).failure) :=
  ⟨fun path src old new t hold herrors hdeps hdigests hmissing =>
      Compile.compileSource_among options path src old new t hold herrors hdeps hdigests hmissing,
    fun _ _ _ hunits hk _ _ h => addTo_eq_of_undisturbed hunits hk h⟩

/-- A page that includes a template, and falls back to the path of another one. -/
def pageAmong (files : Assoc Bytes Bytes) : Submission where
  builder := { registry }
  resolver := .ofTable files
  path := "page"
  src := "@include('nav')@include('side', {}, true)"

def pageBefore : Submission := pageAmong [("nav", "<nav>"), ("footer", "<p>")]

/-- The page once the template that it does not include was removed. -/
def pageAfter : Submission := pageAmong [("nav", "<nav>")]

theorem found_pageAfter {p text : Bytes} (h : pageAfter.resolver p = .ok text) : p = "nav" ∧ text = "<nav>" := by
  simpa using mem_of_ofTable h

theorem staysMissing_pageAfter (tags : List Markup.Tag) : StaysMissing pageBefore.resolver pageAfter.resolver tags := by
  refine staysMissing_of_fewer (fun p text h => ?_) tags
  obtain ⟨rfl, -⟩ := found_pageAfter h
  exact ⟨"<nav>", rfl⟩

theorem exists_compiled_pageBefore : ∃ t, pageBefore.compiled {} = .ok t ∧ t.errors = [] ∧ t.channels = [] ∧
    t.deps = ([("nav", sha256 "<nav>")] : Assoc Bytes Bytes) := by
  have hcompiled : (pageBefore.compiled {}).toOption.map (fun t => (t.errors.isEmpty && t.channels.isEmpty, t.deps)) =
      some ((true, [("nav", sha256 "<nav>")]) : Bool × Assoc Bytes Bytes) := by decide +kernel
  cases ht : pageBefore.compiled {} with
  | error e =>
    rw [ht] at hcompiled
    cases hcompiled
  | ok t =>
    rw [ht] at hcompiled
    obtain ⟨hempty, hdeps⟩ := Prod.mk.inj (Option.some.inj hcompiled)
    simp only [Bool.and_eq_true, List.isEmpty_iff] at hempty
    exact ⟨t, rfl, hempty.1, hempty.2, hdeps⟩

theorem undisturbed_pageAfter : Undisturbed {} [pageBefore] pageAfter := by
  have hdistinct : ([pageBefore.identity {}, "<nav>", "<p>"].map sha256).Nodup := by decide +kernel
  have hdigested {text : Bytes} (h : ∃ s ∈ [pageAfter, pageBefore], s.Digests {} text) :
      text ∈ [pageBefore.identity {}, "<nav>", "<p>"] := by
    obtain ⟨s, hs, rfl | ⟨p, hp⟩⟩ := h <;> rcases List.mem_pair.mp hs with rfl | rfl
    · exact List.mem_cons_self
    · exact List.mem_cons_self
    · simp [(found_pageAfter hp).2]
    · have hmem := mem_of_ofTable hp
      simp only [List.mem_cons, Prod.mk.injEq, List.not_mem_nil, or_false] at hmem
      rcases hmem with ⟨-, rfl⟩ | ⟨-, rfl⟩ <;> simp
  refine ⟨rfl, fun a ha b hb heq => List.inj_on_of_nodup_map hdistinct (hdigested ha) (hdigested hb) heq, by decide,
    ?_, ?_⟩
  · rintro s hs t' ht'
    obtain rfl := List.mem_singleton.mp hs
    obtain ⟨t, ht, -, hchannels, hdeps⟩ := exists_compiled_pageBefore
    obtain rfl : t = t' := Except.ok.inj (ht.symm.trans ht')
    rw [hdeps, hchannels]
    decide +kernel
  · rintro s hs - - t p text nodes - - -
    obtain rfl := List.mem_singleton.mp hs
    exact staysMissing_pageAfter _

/-- The page comes from the store, as it would be compiled. -/
theorem served_as_compiled_removed :
    let stored := addAll {} UnitStore.memory [] [pageBefore]
    pageAfter.IsServed {} UnitStore.memory stored ∧
      (pageAfter.addTo {} (some UnitStore.memory) stored).builder = (pageAfter.addTo {} none stored).builder ∧
      ∃ t, pageBefore.compiled {} = .ok t ∧ t.deps = ([("nav", sha256 "<nav>")] : Assoc Bytes Bytes) ∧
        pageAfter.compiled {} = .ok t := by
  intro stored
  have hserved : pageAfter.IsServed {} UnitStore.memory stored := by
    unfold IsServed
    decide +kernel
  have hstart : ∀ key data : Bytes, Assoc.get? key [] = some data → (key, data) ∈ [] := by
    rintro key data ⟨⟩
  obtain ⟨t, ht, herrors, -, hdeps⟩ := exists_compiled_pageBefore
  have hadded := (served_as_compiled {}).2 UnitStore.memory _ [] UnitStore.honest_memory hstart [pageBefore] pageAfter
    undisturbed_pageAfter
  refine ⟨hserved, hadded.1, t, ht, hdeps, ?_⟩
  refine (served_as_compiled {}).1 "page" pageAfter.src pageBefore.resolver pageAfter.resolver t ht herrors ?_ ?_ ?_
  · intro p digest hp
    rw [hdeps] at hp
    simp only [Assoc.get?] at hp
    split at hp
    · rename_i hname
      exact ⟨"<nav>", hname ▸ rfl, Option.some.inj hp⟩
    · cases hp
  · intro p a b ha hb _
    obtain ⟨rfl, rfl⟩ := found_pageAfter hb
    exact Except.ok.inj (ha.symm.trans rfl)
  · exact fun p text nodes _ _ => staysMissing_pageAfter _

end Submission

end Stencil
