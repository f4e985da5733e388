import Stencil.Proofs.Build.Reuse

/-! # What a build has collected

A ledger notes what is asked of a builder: the files, and the text for each file and loader in the order in which it
comes. The selected file and loader are noted as they were asked for, without the side steps of the builder; a template
is noted by the result of adding it. The builder holds what the ledger notes (`Builder.holds_after`): no text is lost,
and none goes to another file or loader. -/

namespace Stencil.Builder

variable {κ : Type}

/-! ### Requests -/

/-- What is asked of a builder. Each change of the loader can be taken back later on, any number of times. -/
inductive Request where
  | select (file : Bytes)
  | use (loader : Bytes)
  /-- Selects the loader again that the change with this number, from zero, took the place of. -/
  | restore (change : Nat)
  | add (text : Bytes)
  | addFile (path src : Bytes) (canceled : Bool)

/-- A builder at work, with its store and the loaders that others took the place of. -/
structure Session (κ : Type) where
  builder : Builder
  store : κ
  replaced : List Bytes := []

/-- Serves one request. -/
def Session.serve (units : Option (UnitStore κ)) (s : Session κ) : Request → Session κ
  | .select file => { s with builder := s.builder.select file }
  | .use loader => { s with builder := s.builder.use loader, replaced := s.replaced ++ [s.builder.loader] }
  | .restore change => { s with builder := s.builder.use (s.replaced[change]?.getD s.builder.loader) }
  | .add text => { s with builder := s.builder.add text }
  | .addFile path src canceled =>
    let added := s.builder.addFile units canceled path src s.store
    { s with builder := added.builder, store := added.store }

/-- Serves requests in order. -/
def Session.serveAll (units : Option (UnitStore κ)) (s : Session κ) (requests : List Request) : Session κ :=
  requests.foldl (Session.serve units) s

/-- Nothing was asked of a builder yet. -/
structure IsNew (b : Builder) : Prop where
  buckets : b.buckets = []
  current : b.current = []
  loader : b.loader = Compile.primaryLoader
  unlost : b.lostText = false

/-- A builder after requests, with a store that holds `k` at first. -/
def after (b : Builder) (units : Option (UnitStore κ)) (k : κ) (requests : List Request) : Builder :=
  (Session.serveAll units { builder := b, store := k } requests).builder

/-! ### Ledgers -/

/-- The texts with which a template is added, empty ones if it is not. -/
def texts (b : Builder) (store : Option (UnitStore κ)) (canceled : Bool) (path src : Bytes) (k : κ) : UnitTexts :=
  (b.unit? store canceled path src k).getD ⟨[], []⟩

/-- Text that was added to a file for a loader. -/
structure Addition where
  file : Bytes
  loader : Bytes
  text : Bytes

/-- The text for one file and loader, put together in the order in which it was added. -/
def collected (additions : List Addition) (file loader : Bytes) : Bytes :=
  (additions.filter fun a => a.file = file ∧ a.loader = loader).flatMap (·.text)

theorem collected_append (as bs : List Addition) (file loader : Bytes) :
    collected (as ++ bs) file loader = collected as file loader ++ collected bs file loader := by
  simp [collected]

/-- What was asked of a builder. -/
structure Ledger where
  /-- The file that text goes to; none is selected at first. -/
  file : Bytes := []
  loader : Bytes := Compile.primaryLoader
  replaced : List Bytes := []
  /-- The files that were selected, or added as templates. -/
  files : List Bytes := []
  additions : List Addition := []

namespace Ledger

/-- The texts of a template, its program first. -/
def unitAdditions (path : Bytes) (u : UnitTexts) : List Addition :=
  ⟨path, Compile.primaryLoader, u.program⟩ :: (Assoc.sorted u.channels).map fun c => ⟨path, c.1, c.2⟩

/-- Notes a template that is added. It is selected only if no file was selected before. -/
def addUnit (l : Ledger) (path : Bytes) (u : UnitTexts) : Ledger :=
  { l with
    file := if l.file = [] then path else l.file
    files := l.files ++ [path]
    additions := l.additions ++ unitAdditions path u }

/-- Notes one request to a session. A template is noted if nothing failed when it was added, or only the store did not
take its record. -/
def note (units : Option (UnitStore κ)) (s : Session κ) (l : Ledger) : Request → Ledger
  | .select file => { l with file, files := l.files ++ [file] }
  | .use loader => { l with loader, replaced := l.replaced ++ [l.loader] }
  | .restore change => { l with loader := l.replaced[change]?.getD l.loader }
  | .add text => { l with additions := l.additions ++ [⟨l.file, l.loader, text⟩] }
  | .addFile path src canceled =>
    if (s.builder.addFile units canceled path src s.store).counts path then
      l.addUnit path (s.builder.texts units canceled path src s.store)
    else l

/-- Notes requests in order, each with the session as it is when the request comes. -/
def noteAll (units : Option (UnitStore κ)) : Session κ → Ledger → List Request → Ledger
  | _, l, [] => l
  | s, l, r :: rs => noteAll units (s.serve units r) (l.note units s r) rs

/-- Files have names, and text is added only while a file is selected. -/
def Allows (l : Ledger) : Request → Prop
  | .select file => file ≠ []
  | .add _ => l.file ≠ []
  | .addFile path _ _ => path ≠ []
  | .use _ => True
  | .restore _ => True

/-- What is noted of requests to a new builder, with a store that holds `k` at first. -/
def noted (b : Builder) (units : Option (UnitStore κ)) (k : κ) (requests : List Request) : Ledger :=
  noteAll units { builder := b, store := k } {} requests

/-- Every request is allowed when it comes. -/
def AllowsAll (units : Option (UnitStore κ)) : Session κ → Ledger → List Request → Prop
  | _, _, [] => True
  | s, l, r :: rs => l.Allows r ∧ AllowsAll units (s.serve units r) (l.note units s r) rs

instance (l : Ledger) : (r : Request) → Decidable (l.Allows r)
  | .select file => inferInstanceAs (Decidable (file ≠ []))
  | .add _ => inferInstanceAs (Decidable (l.file ≠ []))
  | .addFile path _ _ => inferInstanceAs (Decidable (path ≠ []))
  | .use _ => .isTrue trivial
  | .restore _ => .isTrue trivial

instance decidableAllowsAll (units : Option (UnitStore κ)) :
    (s : Session κ) → (l : Ledger) → (rs : List Request) → Decidable (AllowsAll units s l rs)
  | _, _, [] => .isTrue trivial
  | s, l, r :: rs =>
    have := decidableAllowsAll units (s.serve units r) (l.note units s r) rs
    inferInstanceAs (Decidable (l.Allows r ∧ AllowsAll units (s.serve units r) (l.note units s r) rs))

/-- The loaders for which text was added to a file, even if it was empty. -/
def loaders (l : Ledger) (file : Bytes) : List Bytes := (l.additions.filter fun a => a.file = file).map (·.loader)

/-- The text for one file and loader. -/
def text (l : Ledger) (file loader : Bytes) : Bytes := collected l.additions file loader

theorem exists_addition {l : Ledger} {file loader : Bytes} (h : l.text file loader ≠ []) :
    ∃ a ∈ l.additions, a.file = file ∧ a.loader = loader := by
  by_contra hnone
  refine h ?_
  rw [text, collected, List.filter_eq_nil_iff.mpr fun a ha => ?_, List.flatMap_nil]
  simpa using fun hfile hloader => hnone ⟨a, ha, hfile, hloader⟩

theorem mem_loaders {l : Ledger} {file loader : Bytes} (h : l.text file loader ≠ []) : loader ∈ l.loaders file := by
  obtain ⟨a, ha, hfile, rfl⟩ := l.exists_addition h
  exact List.mem_map_of_mem (List.mem_filter.mpr ⟨ha, by simpa using hfile⟩)

end Ledger

/-! ### Settings -/

/-- What no request changes. -/
structure SameSettings (b b' : Builder) : Prop where
  registry : b'.registry = b.registry
  options : b'.options = b.options
  channels : b'.channels = b.channels
  manifestName : b'.manifestName = b.manifestName

namespace SameSettings
variable {b b' b'' : Builder}

theorem refl (b : Builder) : b.SameSettings b := ⟨rfl, rfl, rfl, rfl⟩

theorem symm (h : b.SameSettings b') : b'.SameSettings b :=
  ⟨h.registry.symm, h.options.symm, h.channels.symm, h.manifestName.symm⟩

theorem trans (h : b.SameSettings b') (h' : b'.SameSettings b'') : b.SameSettings b'' where
  registry := h'.registry.trans h.registry
  options := h'.options.trans h.options
  channels := h'.channels.trans h.channels
  manifestName := h'.manifestName.trans h.manifestName

/-- Another selection is no other setting. -/
theorem reselect (h : b.SameSettings b') (file loader : Bytes) :
    b.SameSettings { b' with current := file, loader } :=
  ⟨h.registry, h.options, h.channels, h.manifestName⟩

end SameSettings

/-! ### Buckets -/

/-- The text that a builder has for a file and a loader. -/
def content (b : Builder) (file loader : Bytes) : Bytes :=
  (Assoc.get? loader ((Assoc.get? file b.buckets).getD [])).getD []

/-- Each file has one bucket and each loader one text in it; text only goes to files that have a bucket. -/
structure Tidy (b : Builder) : Prop where
  files : (Assoc.keys b.buckets).Nodup
  loaders : ∀ e ∈ b.buckets, (Assoc.keys e.2).Nodup
  selected : b.current ≠ [] → b.current ∈ Assoc.keys b.buckets
  unlost : b.lostText = false

theorem Tidy.bucket {b : Builder} (h : b.Tidy) (file : Bytes) :
    (Assoc.keys ((Assoc.get? file b.buckets).getD [])).Nodup := by
  cases hget : Assoc.get? file b.buckets with
  | none => exact List.nodup_nil
  | some bucket => exact h.loaders _ (Assoc.mem_of_get? hget)

/-- A builder has got more files and text, and is otherwise as it was. -/
structure Grows (b b' : Builder) (files : List Bytes) (new : List Addition) : Prop where
  settings : b.SameSettings b'
  loader : b'.loader = b.loader
  tidy : b'.Tidy
  files : ∀ file, file ∈ Assoc.keys b'.buckets ↔ file ∈ Assoc.keys b.buckets ∨ file ∈ files
  content : ∀ file loader, b'.content file loader = b.content file loader ++ collected new file loader

section Growth
variable {b b' b'' : Builder} {files files' : List Bytes} {new new' : List Addition}

theorem Grows.refl (h : b.Tidy) : b.Grows b [] [] :=
  ⟨.refl b, rfl, h, by simp, fun _ _ => (List.append_nil _).symm⟩

theorem Grows.trans (h : b.Grows b' files new) (h' : b'.Grows b'' files' new') :
    b.Grows b'' (files ++ files') (new ++ new') where
  settings := h.settings.trans h'.settings
  loader := h'.loader.trans h.loader
  tidy := h'.tidy
  files file := by rw [h'.files, h.files, List.mem_append, or_assoc]
  content file loader := by rw [h'.content, h.content, collected_append, List.append_assoc]

/-- A file that is selected has a bucket, an empty one if it is new. -/
theorem grows_select (h : b.Tidy) (file : Bytes) : b.Grows (b.select file) [file] [] := by
  cases hget : Assoc.get? file b.buckets with
  | some bucket =>
    have hkey : file ∈ Assoc.keys b.buckets := List.mem_map_of_mem (f := (·.1)) (Assoc.mem_of_get? hget)
    have hbuckets : (b.select file).buckets = b.buckets := if_pos (by simp [Assoc.has, hget])
    refine ⟨⟨rfl, rfl, rfl, rfl⟩, rfl, ⟨hbuckets ▸ h.files, hbuckets ▸ h.loaders, fun _ => hbuckets ▸ hkey, h.unlost⟩,
      fun other => ?_, fun other loader => ?_⟩
    · rw [hbuckets, List.mem_singleton]
      exact ⟨.inl, fun hor => hor.elim id fun heq => heq ▸ hkey⟩
    · rw [content, content, hbuckets]
      exact (List.append_nil _).symm
  | none =>
    have hbuckets : (b.select file).buckets = Assoc.insert file [] b.buckets :=
      (if_neg (by simp [Assoc.has, hget])).trans (Assoc.insert_of_none [] hget).symm
    refine ⟨⟨rfl, rfl, rfl, rfl⟩, rfl,
      ⟨hbuckets ▸ Assoc.nodup_keys_insert _ _ h.files, fun e he => ?_, fun _ => ?_, h.unlost⟩, fun other => ?_,
      fun other loader => ?_⟩
    · rcases Assoc.mem_insert_cases (hbuckets ▸ he) with he | rfl
      · exact h.loaders e he
      · exact List.nodup_nil
    · rw [hbuckets, Assoc.mem_keys_insert]
      exact .inl rfl
    · rw [hbuckets, Assoc.mem_keys_insert, List.mem_singleton, or_comm]
    · rw [content, content, hbuckets]
      by_cases hother : other = file
      · subst hother
        simp [hget, collected, Assoc.get?]
      · simp [Assoc.get?_insert_ne hother, collected]

/-- Text goes to the selected file. -/
theorem grows_addFor (h : b.Tidy) (hselected : b.current ≠ []) (loader text : Bytes) :
    b.Grows (b.addFor loader text) [] [⟨b.current, loader, text⟩] := by
  obtain ⟨bucket, hbucket⟩ : ∃ bucket, bucket = (Assoc.get? b.current b.buckets).getD [] := ⟨_, rfl⟩
  have hadd : b.addFor loader text = { b with
      buckets := Assoc.insert b.current (Assoc.insert loader ((Assoc.get? loader bucket).getD [] ++ text) bucket)
        b.buckets } := by
    rw [addFor, if_neg hselected, hbucket]
  have hkeys (file : Bytes) : file ∈ Assoc.keys (b.addFor loader text).buckets ↔ file ∈ Assoc.keys b.buckets := by
    rw [hadd, Assoc.mem_keys_insert]
    exact or_iff_right_of_imp fun heq => heq ▸ h.selected hselected
  refine ⟨by rw [hadd]; exact ⟨rfl, rfl, rfl, rfl⟩, by rw [hadd], ⟨?_, ?_, ?_, ?_⟩, ?_, ?_⟩
  · rw [hadd]
    exact Assoc.nodup_keys_insert _ _ h.files
  · rw [hadd]
    intro e he
    rcases Assoc.mem_insert_cases he with he | rfl
    · exact h.loaders e he
    · exact Assoc.nodup_keys_insert _ _ (hbucket ▸ h.bucket b.current)
  · rw [hkeys, hadd]
    exact h.selected
  · rw [hadd]
    exact h.unlost
  · simpa using hkeys
  · intro file other
    rw [content, content, hadd]
    by_cases hfile : file = b.current
    · subst hfile
      by_cases hother : other = loader
      · subst hother
        simp [collected, hbucket]
      · simp [collected, hbucket, Assoc.get?_insert_ne hother, Ne.symm hother]
    · simp [collected, Assoc.get?_insert_ne hfile, Ne.symm hfile]

theorem current_addFor (b : Builder) (loader text : Bytes) : (b.addFor loader text).current = b.current := by
  unfold addFor
  split <;> rfl

/-- Any file that has a bucket can be selected. -/
theorem Grows.reselect (h : b.Grows b' files new) {file : Bytes} (hfile : file ∈ Assoc.keys b'.buckets) :
    b.Grows { b' with current := file } files new :=
  ⟨h.settings.reselect file b'.loader, h.loader, ⟨h.tidy.files, h.tidy.loaders, fun _ => hfile, h.tidy.unlost⟩,
    h.files, h.content⟩

/-- The texts of a template go to its file, and the file that was selected before still is. -/
theorem grows_addUnit (h : b.Tidy) {path : Bytes} (hpath : path ≠ []) (u : UnitTexts) :
    b.Grows (b.addUnit path u.program u.channels) [path] (Ledger.unitAdditions path u) ∧
      (b.addUnit path u.program u.channels).current = if b.current = [] then path else b.current := by
  have hchannels (cs : List (Bytes × Bytes)) {b : Builder} (htidy : b.Tidy) (hcurrent : b.current = path) :
      b.Grows (cs.foldl (fun b c => b.addFor c.1 c.2) b) [] (cs.map fun c => ⟨path, c.1, c.2⟩) ∧
        (cs.foldl (fun b c => b.addFor c.1 c.2) b).current = path := by
    induction cs generalizing b with
    | nil => exact ⟨.refl htidy, hcurrent⟩
    | cons c cs ih =>
      have hstep := grows_addFor htidy (hcurrent ▸ hpath) c.1 c.2
      obtain ⟨hrest, hend⟩ := ih hstep.tidy ((current_addFor b c.1 c.2).trans hcurrent)
      rw [hcurrent] at hstep
      exact ⟨hstep.trans hrest, hend⟩
  have hselect := grows_select h path
  have hprogram : (b.select path).Grows _ [] [⟨path, Compile.primaryLoader, u.program⟩] :=
    grows_addFor hselect.tidy (b := b.select path) hpath Compile.primaryLoader u.program
  obtain ⟨hrest, hend⟩ := hchannels (Assoc.sorted u.channels) hprogram.tidy (current_addFor (b.select path) _ _)
  have hall := (hselect.trans hprogram).trans hrest
  rw [addUnit]
  split
  · exact ⟨hall, hend⟩
  · rename_i hcurrent
    exact ⟨hall.reselect ((hall.files _).mpr (.inl (h.selected hcurrent))), rfl⟩

end Growth

/-! ### Sessions -/

/-- A session has what the ledger notes. -/
structure Session.Follows (s : Session κ) (b : Builder) (l : Ledger) : Prop where
  settings : b.SameSettings s.builder
  tidy : s.builder.Tidy
  current : s.builder.current = l.file
  loader : s.builder.loader = l.loader
  replaced : s.replaced = l.replaced
  files : ∀ file, file ∈ Assoc.keys s.builder.buckets ↔ file ∈ l.files
  content : ∀ file loader, s.builder.content file loader = l.text file loader

section Sessions
variable {b : Builder} {units : Option (UnitStore κ)} {s : Session κ} {l : Ledger}

theorem Session.Follows.grow (h : s.Follows b l) {b' : Builder} {files : List Bytes} {new : List Addition}
    (hgrows : s.builder.Grows b' files new) (k : κ) :
    Session.Follows { s with builder := b', store := k } b
      { l with file := b'.current, files := l.files ++ files, additions := l.additions ++ new } where
  settings := h.settings.trans hgrows.settings
  tidy := hgrows.tidy
  current := rfl
  loader := hgrows.loader.trans h.loader
  replaced := h.replaced
  files file := by rw [hgrows.files, h.files, List.mem_append]
  content file loader := by rw [hgrows.content, h.content, Ledger.text, Ledger.text, collected_append]

theorem Session.Follows.use (h : s.Follows b l) (loader : Bytes) (replaced : List Bytes) :
    Session.Follows { s with builder := s.builder.use loader, replaced } b { l with loader, replaced } where
  settings := h.settings.reselect s.builder.current loader
  tidy := ⟨h.tidy.files, h.tidy.loaders, h.tidy.selected, h.tidy.unlost⟩
  current := h.current
  loader := rfl
  replaced := rfl
  files := h.files
  content := h.content

/-- Every request leads to what the ledger notes of it. -/
theorem Session.Follows.serve (h : s.Follows b l) {r : Request} (hallowed : l.Allows r) :
    (s.serve units r).Follows b (l.note units s r) := by
  cases r with
  | select file =>
    have hnext := h.grow (grows_select h.tidy file) s.store
    rw [List.append_nil] at hnext
    simpa only [Session.serve, Ledger.note, select] using hnext
  | use loader =>
    have hnext := h.use loader (l.replaced ++ [l.loader])
    simpa only [Session.serve, Ledger.note, ← h.loader, ← h.replaced] using hnext
  | restore change =>
    have hnext := h.use (l.replaced[change]?.getD l.loader) l.replaced
    simpa only [Session.serve, Ledger.note, ← h.loader, ← h.replaced] using hnext
  | add text =>
    have hnext := h.grow (grows_addFor h.tidy (h.current ▸ hallowed) s.builder.loader text) s.store
    rw [List.append_nil, current_addFor] at hnext
    simpa only [Session.serve, Builder.add, Ledger.note, ← h.current, ← h.loader] using hnext
  | addFile path src canceled =>
    obtain ⟨hbuilder, hcounts⟩ := addFile_eq s.builder units canceled path src s.store
    rw [Session.serve, Ledger.note, texts, hcounts]
    cases hunit : s.builder.unit? units canceled path src s.store with
    | some u =>
      obtain ⟨hgrows, hcurrent⟩ := grows_addUnit h.tidy hallowed u
      have hnext := h.grow hgrows (s.builder.addFile units canceled path src s.store).store
      rw [hcurrent, h.current] at hnext
      simp only [hunit] at hbuilder
      rw [hbuilder]
      exact hnext
    | none =>
      have hnext := h.grow (.refl h.tidy) (s.builder.addFile units canceled path src s.store).store
      simp only [hunit] at hbuilder
      rw [List.append_nil, List.append_nil, h.current] at hnext
      rw [hbuilder]
      exact hnext

/-- Requests lead to what the ledger notes of them. -/
theorem Session.follows_serveAll (h : s.Follows b l) {requests : List Request}
    (hallowed : Ledger.AllowsAll units s l requests) :
    (s.serveAll units requests).Follows b (Ledger.noteAll units s l requests) := by
  induction requests generalizing s l with
  | nil => exact h
  | cons r rs ih => exact ih (h.serve hallowed.1) hallowed.2

theorem follows_new (hnew : b.IsNew) (k : κ) : Session.Follows { builder := b, store := k } b {} where
  settings := .refl b
  tidy :=
    { files := by simp [hnew.buckets, Assoc.keys]
      loaders := by simp [hnew.buckets]
      selected := fun h => absurd hnew.current h
      unlost := hnew.unlost }
  current := hnew.current
  loader := hnew.loader
  replaced := rfl
  files file := by simp [hnew.buckets, Assoc.keys]
  content file loader := by simp [Builder.content, hnew.buckets, Assoc.get?, Ledger.text, collected]

/-- A builder with the settings of `b` has the files and texts of a ledger. -/
structure Holds (b' b : Builder) (l : Ledger) : Prop where
  settings : b.SameSettings b'
  tidy : b'.Tidy
  files : ∀ file, file ∈ Assoc.keys b'.buckets ↔ file ∈ l.files
  content : b'.content = l.text

/-- However a new builder is used, it holds what a ledger notes of that. -/
theorem holds_after (hnew : b.IsNew) {k : κ} {requests : List Request}
    (hallowed : Ledger.AllowsAll units { builder := b, store := k } {} requests) :
    (b.after units k requests).Holds b (Ledger.noted b units k requests) := by
  have h := Session.follows_serveAll (follows_new hnew k) hallowed
  exact ⟨h.settings, h.tidy, h.files, funext fun file => funext (h.content file)⟩

end Sessions

end Stencil.Builder
