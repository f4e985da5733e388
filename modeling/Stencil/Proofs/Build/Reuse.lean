import Stencil.Build.Builder
import Stencil.Proofs.Build.Records
import Stencil.Proofs.Compile.Completion
import Stencil.Proofs.Compile.Life

/-! # Templates added from a store

A template that is added is added with its program and its texts for other loaders, as it was compiled or as a store
has it (`Builder.addFile_eq`). A unit that comes from the store is the one that was put there, byte for byte in its
program, and in its channels as far as they are valid (`Builder.addFile_of_stored`). -/

namespace Stencil

open Text.Utf8

/-! ### Digests -/

namespace Text.Digest

/-- What holds of the hexadecimal digits holds of all bytes of a digest. -/
theorem all_sha256 {P : UInt8 → Bool} (h : ∀ d < 16, P (hexDigit d) = true) (content : Bytes) :
    (sha256 content).all P = true := by
  have hpadded (width n : Nat) : (hexPadded width n).all P = true := by
    induction width generalizing n with
    | zero => rfl
    | succ width ih =>
      rw [hexPadded, List.all_append, ih, Bool.true_and, List.all_cons, List.all_nil, Bool.and_true]
      exact h _ (Nat.mod_lt n (by decide))
  rw [sha256, List.all_flatMap, List.all_eq_true]
  exact fun w _ => hpadded 8 w.toNat

theorem length_sha256 (content : Bytes) : (sha256 content).length = 64 := by
  have hpadded (width n : Nat) : (hexPadded width n).length = width := by
    induction width generalizing n with
    | zero => rfl
    | succ width ih => rw [hexPadded, List.length_append, ih, List.length_singleton]
  simp [sha256, hpadded]

theorem isValid_sha256 (content : Bytes) : isValid (sha256 content) = true :=
  isValid_of_ascii (all_sha256 (by decide) content)

end Text.Digest

/-! ### Tables of a template -/

namespace Compile

open Stencil.Directive

/-- Each loader has its text once, and each template that was included its digest. -/
structure State.Distinct (st : State) : Prop where
  channels : (Assoc.keys st.out.channels).Nodup
  deps : (Assoc.keys st.deps).Nodup

theorem Output.nodup_channels_append (o : Output) (part : Section) (code : List Instr) :
    (o.append part code).channels = o.channels := by
  cases part <;> rfl

theorem kept_distinct : Kept (fun _ => True) fun st st' => st.Distinct → st'.Distinct where
  plain _ _ _ := trivial
  refl _ := id
  trans h h' := h' ∘ h
  emit st part code _ h := by
    refine ⟨?_, h.deps⟩
    unfold State.emit
    rw [Output.nodup_channels_append]
    exact h.channels
  add st part text h := by
    refine ⟨?_, h.deps⟩
    unfold State.add Output.add
    split
    · exact h.channels
    split
    · rw [Output.nodup_channels_append]
      exact h.channels
    · exact Assoc.nodup_keys_insert _ _ h.channels
  select _ _ h := ⟨h.channels, h.deps⟩
  silent hout _ hdeps _ h := ⟨hout ▸ h.channels, hdeps ▸ h.deps⟩
  record _ path digest h := ⟨h.channels, Assoc.nodup_keys_insert path digest h.deps⟩
  report _ _ _ h := ⟨h.channels, h.deps⟩
  backTo {st st'} h hst := by
    have hsublist : ∀ (m : Assoc Bytes Nat) (cs : Assoc Bytes Bytes),
        (Assoc.keys (cs.filterMap fun c => (Assoc.get? c.1 m).map fun length => (c.1, c.2.take length))).Sublist
          (Assoc.keys cs) := by
      intro m cs
      induction cs with
      | nil => exact .slnil
      | cons c cs ih =>
        cases hc : Assoc.get? c.1 m with
        | none => simpa [hc, Assoc.keys] using ih.cons c.1
        | some length => simpa [hc, Assoc.keys] using ih.cons_cons c.1
    exact ⟨(hsublist _ _).nodup (h hst).channels, (h hst).deps⟩

theorem distinct_runFileHook (env : Env) (d : Definition) (hook : Option (UnitInfo → Script Unit)) {st : State}
    (h : st.Distinct) : (runFileHook env d hook st).Distinct := by
  cases hook with
  | none => exact h
  | some f =>
    have hask : (fileRequests env).Keeps fun st st' => st.Distinct → st'.Distinct :=
      ⟨fun _ _ => id, fun _ => id, kept_distinct.embedAt vetted_anything maxIncludes env (uses_anything env)⟩
    have hrun : st.Distinct → (runScript env (fileRequests env) (f env.unit) st).2.Distinct :=
      kept_distinct.runScript hask (Script.only_true (f env.unit)) st
    rcases hscript : runScript env (fileRequests env) (f env.unit) st with ⟨e | u, after⟩ <;> rw [hscript] at hrun
    · simp only [runFileHook, hscript]
      have hback := kept_distinct.backTo hrun h
      exact ⟨hback.channels, hback.deps⟩
    · simp only [runFileHook, hscript]
      exact hrun h

/-- Nodes fail only with a cancellation. -/
theorem error_of_compileNodes {embed : Embedder} {env : Env} {which : Selection} {ns : List Markup.Node} {st : State}
    {f : Failure}
    (h : (compileNodes embed env which ns st).1 = .error f) : f = .canceled := by
  induction ns generalizing st with
  | nil => cases h
  | cons n ns ih =>
    rw [compileNodes] at h
    split at h
    · split at h
      · exact (Except.error.inj h).symm
      · exact ih h
    · exact ih h

section
variable {r : Registry} {options : Options} {path src : Bytes} {canceled : Bool} {t : Template}

/-- A template cannot be read, or it is cancelled, or all its nodes are compiled and its file hooks run. -/
theorem compileSource_cases (r : Registry) (options : Options) (path : Bytes) (canceled : Bool) (src : Bytes) :
    (∃ d, (compileSource r options path canceled src).result = .error (.diagnostic d)) ∨
      (compileSource r options path canceled src).result = .error .canceled ∨
      ∃ nodes st, compileNodes embedder (options.env r path nodes) .all nodes
          ((options.env r path nodes).hooked .pre { canceled }) = (.ok (), st) ∧
        (compileSource r options path canceled src).result =
          .ok (((options.env r path nodes).finish st).template path) := by
  unfold compileSource
  cases Markup.parse r options.parse path src with
  | error d => exact .inl ⟨d, rfl⟩
  | ok nodes =>
    refine .inr ?_
    dsimp only
    by_cases hahead : canceled ∧ options.ahead r nodes ≠ []
    · rw [generate_stopped r options path nodes hahead]
      exact .inl rfl
    rw [generate_stages r options path nodes hahead]
    rcases hrun : compileNodes embedder (options.env r path nodes) .all nodes
        ((options.env r path nodes).hooked .pre { canceled }) with ⟨e | u, st⟩
    · obtain rfl : e = .canceled := error_of_compileNodes (congrArg Prod.fst hrun)
      exact .inl rfl
    · exact .inr ⟨nodes, st, hrun, rfl⟩

/-- A template that does not compile was cancelled or cannot be read. -/
theorem error_of_compileSource {f : Failure} (h : (compileSource r options path canceled src).result = .error f) :
    f = .canceled ∨ ∃ d, f = .diagnostic d := by
  obtain ⟨d, hresult⟩ | hresult | ⟨nodes, st, -, hresult⟩ := compileSource_cases r options path canceled src
  · exact .inr ⟨d, Except.error.inj (h.symm.trans hresult)⟩
  · exact .inl (Except.error.inj (h.symm.trans hresult))
  · cases h.symm.trans hresult

/-- A compiled template has each channel once, and the digest of each template that it includes. -/
theorem nodup_of_compileSource (h : (compileSource r options path canceled src).result = .ok t) :
    (Assoc.keys t.channels).Nodup ∧ (Assoc.keys t.deps).Nodup := by
  have hhooks (env : Env) (hook : Definition → Option (UnitInfo → Script Unit)) (ds : List Definition) {st : State}
      (hst : st.Distinct) : (ds.foldl (fun st d => runFileHook env d (hook d) st) st).Distinct :=
    List.foldlRecOn (motive := State.Distinct) ds _ hst fun st hst d _ => distinct_runFileHook env d (hook d) hst
  obtain ⟨d, hresult⟩ | hresult | ⟨nodes, st, hrun, hresult⟩ := compileSource_cases r options path canceled src
  · cases h.symm.trans hresult
  · cases h.symm.trans hresult
  · obtain rfl : t = ((options.env r path nodes).finish st).template path := Except.ok.inj (h.symm.trans hresult)
    have hstart : ((options.env r path nodes).hooked .pre { canceled }).Distinct :=
      hhooks _ _ _ ⟨List.nodup_nil, List.nodup_nil⟩
    have hkept := kept_distinct.compileNodes vetted_anything (uses_anything (options.env r path nodes))
      (kept_distinct.embedAt vetted_anything maxIncludes) .all nodes _ hstart
    rw [← embedder, hrun] at hkept
    have hend : ((options.env r path nodes).finish st).Distinct := hhooks _ _ _ hkept
    exact ⟨hend.channels, hend.deps⟩

theorem nodup_channels (h : (compileSource r options path canceled src).result = .ok t) :
    (Assoc.keys t.channels).Nodup :=
  (nodup_of_compileSource h).1

theorem nodup_deps (h : (compileSource r options path canceled src).result = .ok t) : (Assoc.keys t.deps).Nodup :=
  (nodup_of_compileSource h).2

end

end Compile

/-! ### What is added of a template -/

/-- The texts of a template: its program, and those for other loaders. -/
structure UnitTexts where
  program : Bytes
  channels : Assoc Bytes Bytes

namespace Builder
variable {κ κ' : Type}

/-- A template that compiles and links, with its program. -/
def template? (b : Builder) (canceled : Bool) (path src : Bytes) : Option (Compile.Template × Program) :=
  match (Compile.compileSource b.registry b.options path canceled src).result with
  | .error _ => none
  | .ok t =>
    match t.program with
    | .error _ => none
    | .ok p => some (t, p)

theorem result_of_template? {b : Builder} {canceled : Bool} {path src : Bytes} {t : Compile.Template} {p : Program}
    (h : b.template? canceled path src = some (t, p)) :
    (Compile.compileSource b.registry b.options path canceled src).result = .ok t ∧ t.program = .ok p := by
  unfold template? at h
  split at h
  · cases h
  · rename_i hresult
    split at h
    · cases h
    · rename_i hprogram
      cases h
      exact ⟨hresult, hprogram⟩

/-- The texts of a template that compiles and links. -/
def compiled? (b : Builder) (canceled : Bool) (path src : Bytes) : Option UnitTexts :=
  (b.template? canceled path src).map fun tp => ⟨tp.2.encode, tp.1.channels⟩

/-- The texts with which a template is added: those of the store if it has them, else those of the compiled template. -/
def unit? (b : Builder) (store : Option (UnitStore κ)) (canceled : Bool) (path src : Bytes) (k : κ) : Option UnitTexts :=
  match store.bind fun units => (b.kept? units canceled (b.unitKey path src) k).1 with
  | some r => some ⟨r.program, r.channels⟩
  | none => b.compiled? canceled path src

/-- A template without errors is put into the store, if there is one. -/
def putUnit (b : Builder) (store : Option (UnitStore κ)) (path src : Bytes) (t : Compile.Template) (p : Program)
    (k : κ) : Except Failure Unit × κ :=
  match if t.errors = [] then store else none with
  | none => (.ok (), k)
  | some units => units.put (b.unitKey path src) (UnitRecord.encode p t) (path :: Bytes.sort (Assoc.keys t.deps)) k

/-- The failure of a store that did not take the record of a template. -/
def isOfStore (path : Bytes) : Failure → Bool
  | .within activity _ => activity == "failed to cache " ++ path
  | _ => false

/-- A template was added: nothing failed, or only the store did not take its record, which comes last. -/
def Added.counts (added : Added κ) (path : Bytes) : Bool := added.failure.all (isOfStore path)

section Adding
variable {b : Builder} {store : Option (UnitStore κ)} {canceled : Bool} {path src : Bytes} {k : κ}

theorem compileFile_of_none (h : b.template? canceled path src = none) :
    (b.compileFile store canceled path src k).builder = b ∧ (b.compileFile store canceled path src k).store = k ∧
      (b.compileFile store canceled path src k).counts path = false := by
  unfold template? at h
  unfold compileFile Added.counts
  cases hresult : (Compile.compileSource b.registry b.options path canceled src).result with
  | error f =>
    simp only [hresult, Option.all_some, true_and]
    obtain rfl | ⟨d, rfl⟩ := Compile.error_of_compileSource hresult <;> rfl
  | ok t =>
    cases hprogram : t.program with
    | error e =>
      have hactivity : ("failed to link " : Bytes) ++ path ≠ "failed to cache " ++ path := by
        intro heq
        have hstart : ("failed to l" : Bytes) = "failed to c" := congrArg (List.take 11) heq
        revert hstart
        decide
      simpa only [hresult, hprogram, Option.all_some, isOfStore, true_and, beq_eq_false_iff_ne] using hactivity
    | ok p => simp [hresult, hprogram] at h

theorem compileFile_of_some {t : Compile.Template} {p : Program} (h : b.template? canceled path src = some (t, p)) :
    (b.compileFile store canceled path src k).builder = b.addUnit path p.encode t.channels ∧
      (b.compileFile store canceled path src k).store = (b.putUnit store path src t p k).2 ∧
      (b.compileFile store canceled path src k).counts path = true := by
  obtain ⟨hresult, hprogram⟩ := result_of_template? h
  unfold compileFile putUnit Added.counts
  simp only [hresult, hprogram]
  cases (if t.errors = [] then store else none) with
  | none => exact ⟨rfl, rfl, rfl⟩
  | some units =>
    rcases hput : units.put (b.unitKey path src) (UnitRecord.encode p t) (path :: Bytes.sort (Assoc.keys t.deps)) k
      with ⟨f | u, k'⟩
    · simp only [hput, Option.all_some, isOfStore, beq_self_eq_true, and_self]
    · simp only [hput, Option.all_none, and_self]

/-- Adding a template adds its texts, if there are any, and it counts as added exactly then. Whether the store takes
them makes no difference. -/
theorem addFile_eq (b : Builder) (store : Option (UnitStore κ)) (canceled : Bool) (path src : Bytes) (k : κ) :
    (b.addFile store canceled path src k).builder =
        (match b.unit? store canceled path src k with
        | some u => b.addUnit path u.program u.channels
        | none => b) ∧
      (b.addFile store canceled path src k).counts path = (b.unit? store canceled path src k).isSome := by
  have hcompiled (k : κ) :
      (b.compileFile store canceled path src k).builder =
          (match b.compiled? canceled path src with
          | some u => b.addUnit path u.program u.channels
          | none => b) ∧
        (b.compileFile store canceled path src k).counts path = (b.compiled? canceled path src).isSome := by
    unfold compiled?
    cases htemplate : b.template? canceled path src with
    | none =>
      obtain ⟨hbuilder, -, hcounts⟩ := compileFile_of_none htemplate
      exact ⟨hbuilder, hcounts⟩
    | some tp =>
      obtain ⟨hbuilder, -, hcounts⟩ := compileFile_of_some htemplate
      exact ⟨hbuilder, hcounts⟩
  cases store with
  | none => exact hcompiled k
  | some units =>
    unfold addFile unit?
    rcases hkept : b.kept? units canceled (b.unitKey path src) k with ⟨_ | r, k'⟩
    · simp only [hkept, Option.bind_some]
      exact hcompiled k'
    · simp only [hkept, Option.bind_some, Added.counts, Option.all_none, Option.isSome_some, and_self]

end Adding

/-- The order of the channels does not matter, they are added in the order of their names. -/
theorem addUnit_sorted (b : Builder) (path program : Bytes) (channels : Assoc Bytes Bytes) :
    b.addUnit path program (Assoc.sorted channels) = b.addUnit path program channels := by
  rw [addUnit, addUnit, Assoc.sorted_of_pairwise (Assoc.pairwise_sorted channels)]

/-! ### What is stored of a template -/

/-- What is put into a store is the record of the template, under its key, and it compiled without errors. -/
theorem eq_of_mem_putUnit {b : Builder} {units : UnitStore κ} {path src key data : Bytes} {deps : List Bytes}
    {t : Compile.Template} {p : Program} {k : κ} {asked : List StoreAccess}
    (h : .put key data deps ∈ (b.putUnit (some units.noted) path src t p (k, asked)).2.2) :
    .put key data deps ∈ asked ∨ t.errors = [] ∧ key = b.unitKey path src ∧ data = UnitRecord.encode p t := by
  unfold putUnit at h
  by_cases herrors : t.errors = []
  · rw [if_pos herrors] at h
    simp only [UnitStore.noted] at h
    rcases hput : units.put (b.unitKey path src) (UnitRecord.encode p t) (path :: Bytes.sort (Assoc.keys t.deps)) k
      with ⟨e | u, k'⟩ <;> simp only [hput] at h
    · exact .inl h
    · refine (List.mem_append.mp h).imp_right fun h => ?_
      cases List.mem_singleton.mp h
      exact ⟨herrors, rfl, rfl⟩
  · rw [if_neg herrors] at h
    exact .inl h

theorem stored_of_addFile {b : Builder} {units : UnitStore κ} {canceled : Bool} {path src key data : Bytes}
    {deps : List Bytes} {k : κ}
    (h : .put key data deps ∈ (b.addFile (some units.noted) canceled path src (k, [])).store.2) :
    ∃ t p, (Compile.compileSource b.registry b.options path canceled src).result = .ok t ∧ t.errors = [] ∧
      t.program = .ok p ∧ key = b.unitKey path src ∧ data = UnitRecord.encode p t ∧
        (b.addFile (some units.noted) canceled path src (k, [])).builder = b.addUnit path p.encode t.channels := by
  unfold addFile at h ⊢
  rcases hkept : b.kept? units.noted canceled (b.unitKey path src) (k, []) with ⟨_ | r, k', asked⟩ <;>
    simp only [hkept] at h ⊢
  all_goals
    have hasked : asked = [.get (b.unitKey path src) (units.get (b.unitKey path src) k).1.isSome] :=
      (congrArg (·.2.2) hkept).symm
  · cases htemplate : b.template? canceled path src with
    | none =>
      rw [(compileFile_of_none htemplate).2.1] at h
      simp [hasked] at h
    | some tp =>
      obtain ⟨hadded, hstore, -⟩ := compileFile_of_some htemplate
      rw [hstore] at h
      obtain h | ⟨herrors, hkey, hdata⟩ := eq_of_mem_putUnit h
      · simp [hasked] at h
      · obtain ⟨hresult, hprogram⟩ := result_of_template? htemplate
        exact ⟨tp.1, tp.2, hresult, herrors, hprogram, hkey, hdata, hadded⟩
  · simp [hasked] at h

/-! ### What a stored template gives -/

/-- Every template that was included is found as it was. -/
def Unchanged (b : Builder) (canceled : Bool) (deps : Assoc Bytes Bytes) : Prop :=
  ∀ dep ∈ deps, isValid dep.1 = true ∧ ∃ resolver text, b.options.resolver = some resolver ∧
    Compile.Resolver.find resolver canceled dep.1 = .ok text ∧ Text.Digest.sha256 text = dep.2

theorem isFresh_of_unchanged {b : Builder} {canceled : Bool} {p : Program} {t : Compile.Template}
    (h : b.Unchanged canceled t.deps) : (UnitRecord.ofTemplate p t).isFresh b.options.resolver canceled = true := by
  refine List.all_eq_true.mpr fun dep hdep => ?_
  obtain ⟨e, he, rfl⟩ := UnitRecord.mem_reread hdep
  obtain ⟨hvalid, resolver, text, hresolver, hfind, hdigest⟩ := h e he
  have hmend : mend e.2 = e.2 := mend_of_isValid (hdigest ▸ Text.Digest.isValid_sha256 text)
  simp only [hresolver, mend_of_isValid hvalid, hfind, hmend, beq_iff_eq]
  exact hdigest

theorem kept?_stored (b : Builder) (canceled : Bool) {units : UnitStore κ} {key : Bytes} {k : κ} {p : Program}
    {t : Compile.Template} (h : (units.get key k).1 = some (UnitRecord.encode p t)) :
    (b.kept? units canceled key k).1 =
      if (UnitRecord.ofTemplate p t).isFresh b.options.resolver canceled then some (UnitRecord.ofTemplate p t)
      else none := by
  simp only [kept?, h, Option.bind_some, UnitRecord.decode_encode, Option.filter_some]

/-- A template that comes from the store is added with the program that was stored, byte for byte, and with its texts
for other loaders where these are valid. It comes from the store if every template that it includes is as it was. -/
theorem addFile_of_stored (units : UnitStore κ) (units' : UnitStore κ') (b b' : Builder) (canceled canceled' : Bool)
    (path src path' src' data : Bytes) (deps : List Bytes) (k : κ) (k' : κ')
    (hput : .put (b'.unitKey path' src') data deps ∈ (b.addFile (some units.noted) canceled path src (k, [])).store.2)
    (hget : (units'.get (b'.unitKey path' src') k').1 = some data) :
    ∃ t p, (Compile.compileSource b.registry b.options path canceled src).result = .ok t ∧ t.errors = [] ∧
      t.program = .ok p ∧
      (b.addFile (some units.noted) canceled path src (k, [])).builder = b.addUnit path p.encode t.channels ∧
      (b'.Unchanged canceled' t.deps → (b'.kept? units' canceled' (b'.unitKey path' src') k').1.isSome = true) ∧
      ((b'.kept? units' canceled' (b'.unitKey path' src') k').1.isSome = true →
        let again := (b'.addFile (some units') canceled' path' src' k').builder
        again = b'.addUnit path' p.encode (UnitRecord.reread t.channels) ∧
          ((∀ channel ∈ t.channels, isValid channel.1 = true) →
            again = b'.addUnit path' p.encode (t.channels.map fun channel => (channel.1, mend channel.2))) ∧
          ((∀ channel ∈ t.channels, isValid channel.1 = true ∧ isValid channel.2 = true) →
            again = b'.addUnit path' p.encode t.channels)) := by
  obtain ⟨t, p, hresult, herrors, hprogram, -, rfl, hadded⟩ := stored_of_addFile hput
  have hkept := b'.kept?_stored canceled' hget
  refine ⟨t, p, hresult, herrors, hprogram, hadded, fun hunchanged => ?_, fun hsome => ?_⟩
  · rw [hkept, if_pos (isFresh_of_unchanged hunchanged)]
    rfl
  have hunit : (b'.addFile (some units') canceled' path' src' k').builder =
      b'.addUnit path' p.encode (UnitRecord.reread t.channels) := by
    rw [(addFile_eq ..).1, unit?, Option.bind_some]
    rw [hkept] at hsome ⊢
    split at hsome
    · rename_i hfresh
      rw [if_pos hfresh]
      rfl
    · cases hsome
  have hmended (hnames : ∀ channel ∈ t.channels, isValid channel.1 = true) :
      (b'.addFile (some units') canceled' path' src' k').builder =
        b'.addUnit path' p.encode (t.channels.map fun channel => (channel.1, mend channel.2)) := by
    rw [hunit, UnitRecord.reread_of_nodup (Compile.nodup_channels hresult) hnames, addUnit_sorted]
  refine ⟨hunit, hmended, fun hvalid => ?_⟩
  rw [hmended fun channel h => (hvalid channel h).1,
    UnitRecord.map_mend_of_isValid fun channel h => (hvalid channel h).2]

/-- The records that were put into a store, each with its key and the templates that it was compiled from. -/
def puts (asked : List StoreAccess) : List (Bytes × Bytes × List Bytes) :=
  asked.filterMap fun access =>
    match access with
    | .get _ _ => none
    | .put key data deps => some (key, data, deps)

theorem mem_of_mem_puts {key data : Bytes} {deps : List Bytes} {asked : List StoreAccess}
    (h : (key, data, deps) ∈ puts asked) : .put key data deps ∈ asked := by
  obtain ⟨access, hmem, hput⟩ := List.mem_filterMap.mp h
  cases access with
  | get key found => cases hput
  | put key' data' deps' =>
    cases hput
    exact hmem

/-- A template with an include and a script, added twice with the same store. -/
theorem addFile_of_stored_page :
    let b : Builder :=
      { registry := Directive.Standard.registry
        options := { resolver := some (Compile.Resolver.ofTable [("nav", "<nav>")]) } }
    let src : Bytes := "@include('nav')@client()go()@end()"
    let first := b.addFile (some UnitStore.memory.noted) false "page" src ([], [])
    ∃ (t : Compile.Template) (p : Program), t.deps ≠ [] ∧ t.channels ≠ [] ∧
      first.builder = b.addUnit "page" p.encode t.channels ∧
        (b.addFile (some UnitStore.memory) false "page" src first.store.1).builder =
          b.addUnit "page" p.encode t.channels := by
  intro b src first
  have hstored : ∃ put ∈ puts first.store.2, put.1 = b.unitKey "page" src ∧
      (UnitStore.memory.get (b.unitKey "page" src) first.store.1).1 = some put.2.1 := by decide +kernel
  have hcompiled : (Compile.compileSource b.registry b.options "page" false src).result.toOption.map
      (fun t => (t.channels, t.deps)) = some (([("client", "go()\n")], [("nav", Text.Digest.sha256 "<nav>")]) :
        Assoc Bytes Bytes × Assoc Bytes Bytes) := by decide +kernel
  obtain ⟨⟨key, data, deps⟩, hmem, rfl, hget⟩ := hstored
  obtain ⟨t, p, hresult, -, -, hadded, hkept, hagain⟩ := addFile_of_stored UnitStore.memory UnitStore.memory b b false
    false "page" src "page" src data deps [] first.store.1 (mem_of_mem_puts hmem) hget
  rw [hresult] at hcompiled
  obtain ⟨hchannels, hdeps⟩ := Prod.mk.inj (Option.some.inj hcompiled)
  have hunchanged : b.Unchanged false t.deps := by
    rw [hdeps]
    simp only [Unchanged, List.forall_mem_singleton]
    exact ⟨by decide +kernel, _, "<nav>", rfl, rfl, rfl⟩
  have hvalid : ∀ channel ∈ t.channels, isValid channel.1 = true ∧ isValid channel.2 = true := by
    rw [hchannels]
    decide +kernel
  exact ⟨t, p, by simp [hdeps], by simp [hchannels], hadded, (hagain (hkept hunchanged)).2.2 hvalid⟩

/-- A script with a byte that is no text comes back from the store with the replacement character in its place. -/
theorem not_addFile_same_of_stored : ¬ ∀ (b : Builder) (path src data : Bytes) (deps : List Bytes)
      (k : Assoc Bytes Bytes),
    .put (b.unitKey path src) data deps ∈ (b.addFile (some UnitStore.memory.noted) false path src ([], [])).store.2 →
    (UnitStore.memory.get (b.unitKey path src) k).1 = some data →
    (b.kept? UnitStore.memory false (b.unitKey path src) k).1.isSome = true →
    (b.addFile (some UnitStore.memory) false path src k).builder =
      (b.addFile (some UnitStore.memory.noted) false path src ([], [])).builder := by
  intro h
  let b : Builder := { registry := Directive.Standard.registry }
  let src : Bytes := ("@client()" : Bytes) ++ 0xff :: "@end()"
  let first := b.addFile (some UnitStore.memory.noted) false "page" src ([], [])
  have hcheck : ∃ put ∈ puts first.store.2, put.1 = b.unitKey "page" src ∧
      (UnitStore.memory.get (b.unitKey "page" src) first.store.1).1 = some put.2.1 ∧
        (b.kept? UnitStore.memory false (b.unitKey "page" src) first.store.1).1.isSome = true ∧
          (b.addFile (some UnitStore.memory) false "page" src first.store.1).builder.buckets ≠ first.builder.buckets := by
    decide +kernel
  obtain ⟨⟨key, data, deps⟩, hmem, rfl, hget, hkept, hne⟩ := hcheck
  exact hne (congrArg (·.buckets) (h b "page" src data deps first.store.1 (mem_of_mem_puts hmem) hget hkept))

end Builder

end Stencil
