import Mathlib.Data.List.Dedup
import Stencil.Proofs.Build.Collecting

/-! # What a build writes

A build lists one artifact for each file and loader that has text, and the sink then holds this text under the name of
the artifact. Artifacts share one name space: names tell contents apart, since the mark of the content can be read off
a name, so an artifact that takes the place of another has the same content (`Channel.contentMark_of_artifactName`). -/

namespace Stencil

/-! ### Names -/

theorem Channel.dot_not_mem_contentMark (content : Bytes) : ascii '.' ∉ contentMark content := by
  have hall := List.all_eq_true.mp (Text.Digest.all_sha256 (P := (· != ascii '.')) (by decide) content)
  intro hmem
  have hdot := hall _ (List.mem_of_mem_take hmem)
  simp at hdot

/-- Two texts with a separator are the same on both sides of it, if it does not stand further behind. -/
theorem Bytes.append_cons_inj {c : UInt8} {front front' back back' : Bytes} (hback : c ∉ back) (hback' : c ∉ back')
    (h : front ++ c :: back = front' ++ c :: back') : front = front' ∧ back = back' := by
  rcases List.append_eq_append_iff.mp h with ⟨mid, rfl, hmid⟩ | ⟨mid, rfl, hmid⟩
  · cases mid with
    | nil => exact ⟨(List.append_nil _).symm, (List.cons.inj hmid).2⟩
    | cons d mid =>
      obtain ⟨-, rfl⟩ := List.cons.inj hmid
      exact absurd (List.mem_append_right mid List.mem_cons_self) hback
  · cases mid with
    | nil => exact ⟨List.append_nil _, (List.cons.inj hmid).2.symm⟩
    | cons d mid =>
      obtain ⟨-, rfl⟩ := List.cons.inj hmid
      exact absurd (List.mem_append_right mid List.mem_cons_self) hback'

/-- The mark of the content stands in the name of an artifact between its last two dots. -/
theorem Channel.contentMark_of_artifactName {c c' : Channel} (hext : ascii '.' ∉ c.ext) (hext' : ascii '.' ∉ c'.ext)
    {base base' content content' : Bytes} (h : c.artifactName base content = c'.artifactName base' content') :
    contentMark content = contentMark content' := by
  have hname (c : Channel) (base content : Bytes) : c.artifactName base content =
      ((c.lead ++ "-" ++ base) ++ ascii '.' :: contentMark content) ++ ascii '.' :: c.ext := by
    simp only [artifactName, List.append_assoc]
    rfl
  rw [hname, hname] at h
  have hfront := (Bytes.append_cons_inj hext hext' h).1
  exact (Bytes.append_cons_inj (dot_not_mem_contentMark content) (dot_not_mem_contentMark content') hfront).2

theorem Channel.dot_not_mem_ofLoader {channels : List Channel} (h : ∀ c ∈ channels, ascii '.' ∉ c.ext) (loader : Bytes) :
    ascii '.' ∉ (ofLoader channels loader).ext := by
  unfold ofLoader
  cases hfind : channels.find? fun c => c.name == loader with
  | none => exact (by decide : ascii '.' ∉ ("txt" : Bytes))
  | some c => exact h c (List.mem_of_find?_eq_some hfind)

namespace Builder

/-! ### Listings -/

/-- The loaders with text: those of the channels in their order, then the others by name. -/
def listed (channels : List Channel) (text : Bytes → Bytes) (loaders : List Bytes) : List Bytes :=
  (channels.map (·.name)).filter (fun loader => text loader ≠ []) ++
    Bytes.sort (loaders.dedup.filter fun loader => loader ∉ channels.map (·.name) ∧ text loader ≠ [])

section Listed
variable {channels : List Channel} {text : Bytes → Bytes} {loaders loaders' : List Bytes}

theorem mem_listed (h : ∀ loader, text loader ≠ [] → loader ∈ loaders) (loader : Bytes) :
    loader ∈ listed channels text loaders ↔ text loader ≠ [] := by
  simp only [listed, List.mem_append, Bytes.mem_sort, List.mem_filter, List.mem_dedup, decide_eq_true_eq]
  grind

theorem nodup_listed (hchannels : (channels.map (·.name)).Nodup) : (listed channels text loaders).Nodup := by
  refine List.nodup_append.mpr ⟨hchannels.filter _, Bytes.nodup_sort ((List.nodup_dedup _).filter _), ?_⟩
  rintro a ha a' ha' rfl
  have hout := (List.mem_filter.mp (Bytes.mem_sort.mp ha')).2
  exact (decide_eq_true_eq.mp hout).1 (List.mem_filter.mp ha).1

/-- It does not matter which loaders without text there are. -/
theorem listed_congr (h : ∀ loader, text loader ≠ [] → loader ∈ loaders)
    (h' : ∀ loader, text loader ≠ [] → loader ∈ loaders') :
    listed channels text loaders = listed channels text loaders' := by
  unfold listed
  congr 1
  refine Bytes.eq_of_pairwise_le (Bytes.pairwise_sort _) (Bytes.pairwise_sort _)
    (Bytes.nodup_sort ((List.nodup_dedup _).filter _)) (Bytes.nodup_sort ((List.nodup_dedup _).filter _)) fun loader => ?_
  simp only [Bytes.mem_sort, List.mem_filter, List.mem_dedup, decide_eq_true_eq]
  grind

end Listed

/-- The loaders of a bucket are written in this order, as far as they have text. -/
theorem filter_loaderOrder (b : Builder) {bucket : Assoc Bytes Bytes} (hbucket : (Assoc.keys bucket).Nodup) :
    (b.loaderOrder bucket).filter (fun loader => (Assoc.get? loader bucket).getD [] ≠ []) =
      listed b.channels (fun loader => (Assoc.get? loader bucket).getD []) (Assoc.keys bucket) := by
  have hhas (loader : Bytes) (h : (Assoc.get? loader bucket).getD [] ≠ []) : Assoc.has loader bucket = true := by
    cases hget : Assoc.get? loader bucket with
    | none => simp [hget] at h
    | some text => simp [Assoc.has, hget]
  unfold loaderOrder listed
  rw [List.filter_append]
  congr 1
  · rw [List.filter_filter]
    refine List.filter_congr fun loader _ => ?_
    have := hhas loader
    grind
  · refine Bytes.eq_of_pairwise_le ((Bytes.pairwise_sort _).filter _) (Bytes.pairwise_sort _)
      ((Bytes.nodup_sort (hbucket.filter _)).filter _) (Bytes.nodup_sort ((List.nodup_dedup _).filter _)) fun loader => ?_
    simp only [Bytes.mem_sort, List.mem_filter, List.mem_dedup, decide_eq_true_eq, Bool.not_eq_true',
      List.contains_eq_mem, decide_eq_false_iff_not]
    grind

/-- The artifact of a file and loader with this text. -/
def artifact (b : Builder) (file loader content : Bytes) : Artifact where
  loader
  name := (Channel.ofLoader b.channels loader).artifactName (baseName file) content
  content

/-- The loaders for which a file has text. -/
def loadersOf (b : Builder) (file : Bytes) : List Bytes :=
  listed b.channels (b.content file) (Assoc.keys ((Assoc.get? file b.buckets).getD []))

theorem mem_keys_of_content {b : Builder} {file loader : Bytes} (h : b.content file loader ≠ []) :
    loader ∈ Assoc.keys ((Assoc.get? file b.buckets).getD []) := by
  by_contra hmem
  refine h ?_
  rw [content, Assoc.get?_eq_none_iff.mpr hmem]
  rfl

theorem mem_loadersOf (b : Builder) (file loader : Bytes) : loader ∈ b.loadersOf file ↔ b.content file loader ≠ [] :=
  mem_listed (fun _ => mem_keys_of_content) loader

theorem nodup_loadersOf {b : Builder} (hchannels : (b.channels.map (·.name)).Nodup) (file : Bytes) :
    (b.loadersOf file).Nodup := nodup_listed hchannels

theorem artifacts_eq {b : Builder} (h : b.Tidy) (file : Bytes) :
    b.artifacts file ((Assoc.get? file b.buckets).getD []) =
      (b.loadersOf file).map fun loader => b.artifact file loader (b.content file loader) := by
  rw [loadersOf]
  unfold content
  rw [← filter_loaderOrder b (h.bucket file), artifacts]
  induction b.loaderOrder ((Assoc.get? file b.buckets).getD []) with
  | nil => rfl
  | cons loader rest ih =>
    rw [List.filterMap_cons, ih, List.filter_cons]
    by_cases hempty : (Assoc.get? loader ((Assoc.get? file b.buckets).getD [])).getD [] = []
    · simp only [hempty, ne_eq, not_true_eq_false, decide_false, Bool.false_eq_true, if_true, if_false]
    · simp only [hempty, ne_eq, not_false_eq_true, decide_true, if_true, if_false, List.map_cons]
      rfl

/-! ### Manifests -/

/-- The manifest of what is collected. -/
def manifest (b : Builder) : Manifest := b.buckets.map fun e => (e.1, listing (b.artifacts e.1 e.2))

/-- All artifacts in the order in which they are written. -/
def allArtifacts (b : Builder) : List Artifact := b.buckets.flatMap fun e => b.artifacts e.1 e.2

theorem mem_allArtifacts {b : Builder} (h : b.Tidy) (a : Artifact) : a ∈ b.allArtifacts ↔
    ∃ file loader, b.content file loader ≠ [] ∧ a = b.artifact file loader (b.content file loader) := by
  have hbucket (e : Bytes × Assoc Bytes Bytes) (he : e ∈ b.buckets) : b.artifacts e.1 e.2 =
      (b.loadersOf e.1).map fun loader => b.artifact e.1 loader (b.content e.1 loader) := by
    rw [← artifacts_eq h, Assoc.get?_of_mem h.files he, Option.getD_some]
  rw [allArtifacts, List.mem_flatMap]
  constructor
  · rintro ⟨e, he, ha⟩
    rw [hbucket e he, List.mem_map] at ha
    obtain ⟨loader, hloader, rfl⟩ := ha
    exact ⟨e.1, loader, (b.mem_loadersOf e.1 loader).mp hloader, rfl⟩
  · rintro ⟨file, loader, htext, rfl⟩
    cases hget : Assoc.get? file b.buckets with
    | none => simp [content, hget, Assoc.get?] at htext
    | some bucket =>
      have he := Assoc.mem_of_get? hget
      refine ⟨(file, bucket), he, ?_⟩
      rw [hbucket _ he, List.mem_map]
      exact ⟨loader, (b.mem_loadersOf file loader).mpr htext, rfl⟩

theorem keys_manifest (b : Builder) : Assoc.keys b.manifest = Assoc.keys b.buckets := by
  rw [manifest, Assoc.keys, Assoc.keys, List.map_map]
  rfl

/-- The listing of a file: the name of its program, if there is one, and those of its other artifacts. -/
theorem listing_artifacts {b : Builder} (h : b.Tidy) (hchannels : (b.channels.map (·.name)).Nodup) (file : Bytes) :
    listing (b.artifacts file ((Assoc.get? file b.buckets).getD [])) =
      { entry := if b.content file Compile.primaryLoader = [] then []
          else (b.artifact file Compile.primaryLoader (b.content file Compile.primaryLoader)).name
        assets := some (((b.loadersOf file).filter (· ≠ Compile.primaryLoader)).map fun loader =>
          (b.artifact file loader (b.content file loader)).name) } := by
  have hprimary : ((b.loadersOf file).filter (· == Compile.primaryLoader)) =
      if b.content file Compile.primaryLoader = [] then [] else [Compile.primaryLoader] := by
    rw [List.filter_beq]
    split
    · rename_i hempty
      rw [List.count_eq_zero_of_not_mem fun hmem => (b.mem_loadersOf file _).mp hmem hempty]
      rfl
    · rename_i htext
      rw [List.count_eq_one_of_mem (nodup_loadersOf hchannels file) ((b.mem_loadersOf file _).mpr htext)]
      rfl
  rw [artifacts_eq h, listing, List.filter_map, List.filter_map]
  congr 1
  · rw [show ((fun a : Artifact => a.loader == Compile.primaryLoader) ∘
      fun loader => b.artifact file loader (b.content file loader)) = (· == Compile.primaryLoader) from rfl, hprimary]
    split <;> rfl
  · rw [List.map_map]
    congr 2
    exact List.filter_congr fun loader _ => Bool.eq_iff_iff.mpr (by simp [artifact])

theorem get?_manifest {b : Builder} (h : b.Tidy) {file : Bytes} (hfile : file ∈ Assoc.keys b.buckets) :
    Assoc.get? file b.manifest = some (listing (b.artifacts file ((Assoc.get? file b.buckets).getD []))) := by
  have hkeys : (Assoc.keys b.manifest).Nodup := b.keys_manifest ▸ h.files
  obtain ⟨bucket, hbucket⟩ := Option.ne_none_iff_exists'.mp fun hnone => Assoc.get?_eq_none_iff.mp hnone hfile
  refine Assoc.get?_of_mem hkeys (List.mem_map.mpr ⟨(file, bucket), Assoc.mem_of_get? hbucket, ?_⟩)
  rw [hbucket, Option.getD_some]

end Builder

/-! ### Sinks -/

/-- A sink that takes everything and holds for each name what was written last. -/
structure Sink.Lasting {σ : Type} (sink : Sink σ) (held : σ → Bytes → Option Bytes) : Prop where
  succeeds : ∀ name content s, (sink.write name content s).1 = .ok ()
  held_write : ∀ name content s other,
    held (sink.write name content s).2 other = if other = name then some content else held s other

theorem Sink.lasting_memory : memory.Lasting fun files name => Assoc.get? name files where
  succeeds _ _ _ := rfl
  held_write name content files other := by
    by_cases hother : other = name
    · subst hother
      simp [memory]
    · simp [memory, hother, Assoc.get?_insert_ne hother]

namespace Builder

section Writing
variable {σ : Type} {sink : Sink σ} {held : σ → Bytes → Option Bytes}

/-- What a sink holds after it has taken some artifacts. -/
def writeAll (sink : Sink σ) (as : List Artifact) (s : σ) : σ :=
  as.foldl (fun s a => (sink.write a.name a.content s).2) s

theorem writeArtifacts_eq (hsink : sink.Lasting held) (as : List Artifact) (s : σ) :
    writeArtifacts sink as s = (.ok (), writeAll sink as s) := by
  induction as generalizing s with
  | nil => rfl
  | cons a as ih =>
    have hwrite : sink.write a.name a.content s = (.ok (), (sink.write a.name a.content s).2) :=
      Prod.ext (hsink.succeeds a.name a.content s) rfl
    rw [writeArtifacts, hwrite]
    exact ih _

theorem writeBuckets_eq (hsink : sink.Lasting held) (b : Builder) (buckets : Assoc Bytes (Assoc Bytes Bytes)) (s : σ) :
    b.writeBuckets sink buckets s = (.ok (buckets.map fun e => (e.1, listing (b.artifacts e.1 e.2))),
      writeAll sink (buckets.flatMap fun e => b.artifacts e.1 e.2) s) := by
  induction buckets generalizing s with
  | nil => rfl
  | cons e buckets ih =>
    simp only [writeBuckets, writeArtifacts_eq hsink, ih, List.map_cons, List.flatMap_cons, writeAll, List.foldl_append]

/-- A build writes all artifacts, then the manifest. -/
theorem build_eq (hsink : sink.Lasting held) {b : Builder} (h : b.Tidy) (s : σ) : b.build sink s = (.ok b.manifest,
    (sink.write b.manifestName (Manifest.text (some b.manifest)) (writeAll sink b.allArtifacts s)).2) := by
  have hwrite (s : σ) : sink.write b.manifestName (Manifest.text (some b.manifest)) s =
      (.ok (), (sink.write b.manifestName (Manifest.text (some b.manifest)) s).2) :=
    Prod.ext (hsink.succeeds _ _ s) rfl
  have hbuckets : b.writeBuckets sink b.buckets s = (.ok b.manifest, writeAll sink b.allArtifacts s) :=
    writeBuckets_eq hsink b b.buckets s
  rw [build, if_neg (by simp [h.unlost]), hbuckets]
  dsimp only
  rw [hwrite]

theorem held_writeAll_of_not_mem (hsink : sink.Lasting held) (as : List Artifact) (s : σ) {name : Bytes}
    (h : ∀ a ∈ as, a.name ≠ name) : held (writeAll sink as s) name = held s name := by
  induction as generalizing s with
  | nil => rfl
  | cons a as ih =>
    have hrest : held (writeAll sink (a :: as) s) name = held (sink.write a.name a.content s).2 name :=
      ih _ fun a' ha' => h a' (List.mem_cons_of_mem _ ha')
    rw [hrest, hsink.held_write, if_neg (h a List.mem_cons_self).symm]

/-- An artifact is held, whatever is written after it, if artifacts of one name have one content. -/
theorem held_writeAll_of_mem (hsink : sink.Lasting held) (as : List Artifact) (s : σ)
    (hsame : ∀ a ∈ as, ∀ a' ∈ as, a.name = a'.name → a.content = a'.content) {a : Artifact} (ha : a ∈ as) :
    held (writeAll sink as s) a.name = some a.content := by
  induction as generalizing s a with
  | nil => cases ha
  | cons first as ih =>
    have hrest : ∀ {a : Artifact}, a ∈ as → held (writeAll sink (first :: as) s) a.name = some a.content :=
      ih _ fun a ha a' ha' => hsame a (List.mem_cons_of_mem _ ha) a' (List.mem_cons_of_mem _ ha')
    by_cases hlater : ∃ a' ∈ as, a'.name = a.name
    · obtain ⟨a', ha', hname⟩ := hlater
      rw [← hname, hrest ha', hsame a' (List.mem_cons_of_mem _ ha') a ha hname]
    · obtain rfl | ha := List.mem_cons.mp ha
      · have hlast : held (writeAll sink (a :: as) s) a.name = held (sink.write a.name a.content s).2 a.name :=
          held_writeAll_of_not_mem hsink as _ fun a' ha' hname => hlater ⟨a', ha', hname⟩
        rw [hlast, hsink.held_write, if_pos rfl]
      · exact absurd ⟨a, ha, rfl⟩ hlater

end Writing

/-! ### Builds -/

/-- The name of the artifact for a file and loader. -/
def nameFor (b : Builder) (file loader content : Bytes) : Bytes := (b.artifact file loader content).name

/-- Distinct contents have distinct marks, and no artifact has the name of the manifest. -/
structure NamesApart (b : Builder) (text : Bytes → Bytes → Bytes) : Prop where
  marks : ∀ file loader file' loader', text file loader ≠ [] → text file' loader' ≠ [] →
    Channel.contentMark (text file loader) = Channel.contentMark (text file' loader') →
      text file loader = text file' loader'
  manifest : ∀ file loader, text file loader ≠ [] → b.nameFor file loader (text file loader) ≠ b.manifestName

theorem SameSettings.nameFor_eq {b b' : Builder} (h : b.SameSettings b') : b'.nameFor = b.nameFor := by
  unfold nameFor artifact
  rw [h.channels]

theorem NamesApart.congr {b b' : Builder} {text : Bytes → Bytes → Bytes} (h : b.NamesApart text)
    (hsettings : b.SameSettings b') : b'.NamesApart text where
  marks := h.marks
  manifest := by
    rw [hsettings.nameFor_eq, hsettings.manifestName]
    exact h.manifest

/-- The files and loaders to which text was added are enough to look at. -/
theorem NamesApart.of_additions {b : Builder} {l : Ledger}
    (hmarks : ∀ a ∈ l.additions, ∀ a' ∈ l.additions,
      Channel.contentMark (l.text a.file a.loader) = Channel.contentMark (l.text a'.file a'.loader) →
        l.text a.file a.loader = l.text a'.file a'.loader)
    (hmanifest : ∀ a ∈ l.additions, b.nameFor a.file a.loader (l.text a.file a.loader) ≠ b.manifestName) :
    b.NamesApart l.text where
  marks file loader file' loader' h h' := by
    obtain ⟨a, ha, rfl, rfl⟩ := l.exists_addition h
    obtain ⟨a', ha', rfl, rfl⟩ := l.exists_addition h'
    exact hmarks a ha a' ha'
  manifest file loader h := by
    obtain ⟨a, ha, rfl, rfl⟩ := l.exists_addition h
    exact hmanifest a ha

section Builds
variable {σ : Type} {sink : Sink σ} {held : σ → Bytes → Option Bytes} {b b' : Builder}

/-- A build succeeds. The sink then holds every text under the name of its artifact, and the manifest, and is otherwise
as it was. -/
theorem exists_build (hsink : sink.Lasting held) (h : b.Tidy) (hexts : ∀ c ∈ b.channels, ascii '.' ∉ c.ext)
    (hapart : b.NamesApart b.content) (s : σ) :
    ∃ s', b.build sink s = (.ok b.manifest, s') ∧
      (∀ file loader, b.content file loader ≠ [] →
        held s' (b.nameFor file loader (b.content file loader)) = some (b.content file loader)) ∧
      held s' b.manifestName = some (Manifest.text (some b.manifest)) ∧
      ∀ name, name ≠ b.manifestName →
        (∀ file loader, b.content file loader ≠ [] → b.nameFor file loader (b.content file loader) ≠ name) →
          held s' name = held s name := by
  have hsame : ∀ a ∈ b.allArtifacts, ∀ a' ∈ b.allArtifacts, a.name = a'.name → a.content = a'.content := by
    intro a ha a' ha' hname
    obtain ⟨file, loader, htext, rfl⟩ := (mem_allArtifacts h a).mp ha
    obtain ⟨file', loader', htext', rfl⟩ := (mem_allArtifacts h a').mp ha'
    exact hapart.marks file loader file' loader' htext htext' (Channel.contentMark_of_artifactName
      (Channel.dot_not_mem_ofLoader hexts loader) (Channel.dot_not_mem_ofLoader hexts loader') hname)
  refine ⟨_, build_eq hsink h s, fun file loader htext => ?_, ?_, fun name hmanifest hnames => ?_⟩
  · rw [hsink.held_write, if_neg (hapart.manifest file loader htext)]
    exact held_writeAll_of_mem hsink b.allArtifacts s hsame ((mem_allArtifacts h _).mpr ⟨file, loader, htext, rfl⟩)
  · rw [hsink.held_write, if_pos rfl]
  · rw [hsink.held_write, if_neg hmanifest]
    refine held_writeAll_of_not_mem hsink b.allArtifacts s fun a ha => ?_
    obtain ⟨file, loader, htext, rfl⟩ := (mem_allArtifacts h a).mp ha
    exact hnames file loader htext

/-- The listing of a file depends only on its texts. -/
theorem get?_manifest_eq (h : b.Tidy) (hchannels : (b.channels.map (·.name)).Nodup) {file : Bytes}
    (hfile : file ∈ Assoc.keys b.buckets) {loaders : List Bytes}
    (hloaders : ∀ loader, b.content file loader ≠ [] → loader ∈ loaders) :
    Assoc.get? file b.manifest = some
      { entry := if b.content file Compile.primaryLoader = [] then []
          else b.nameFor file Compile.primaryLoader (b.content file Compile.primaryLoader)
        assets := some (((listed b.channels (b.content file) loaders).filter (· ≠ Compile.primaryLoader)).map fun loader =>
          b.nameFor file loader (b.content file loader)) } := by
  have hsame : b.loadersOf file = listed b.channels (b.content file) loaders :=
    listed_congr (fun _ => mem_keys_of_content) hloaders
  rw [get?_manifest h hfile, listing_artifacts h hchannels, hsame]
  rfl

/-- What was written depends only on the files and the texts. -/
theorem build_congr (hsink : sink.Lasting held) (h : b.Tidy) (h' : b'.Tidy) (hsettings : b.SameSettings b')
    (hchannels : (b.channels.map (·.name)).Nodup) (hexts : ∀ c ∈ b.channels, ascii '.' ∉ c.ext)
    (hapart : b.NamesApart b.content) (hfiles : ∀ file, file ∈ Assoc.keys b'.buckets ↔ file ∈ Assoc.keys b.buckets)
    (hcontent : b'.content = b.content) (s : σ) :
    (∀ file, Assoc.get? file b'.manifest = Assoc.get? file b.manifest) ∧
      (b'.build sink s).1 = .ok b'.manifest ∧
      ∀ name, held (b'.build sink s).2 name = held (b.build sink s).2 name := by
  have hapart' : b'.NamesApart b'.content := hcontent ▸ hapart.congr hsettings
  have hmanifest (file : Bytes) : Assoc.get? file b'.manifest = Assoc.get? file b.manifest := by
    by_cases hfile : file ∈ Assoc.keys b.buckets
    · have htext (loader : Bytes) (htext : b.content file loader ≠ []) : loader ∈ b.loadersOf file :=
        (b.mem_loadersOf file loader).mpr htext
      rw [get?_manifest_eq h hchannels hfile htext, get?_manifest_eq h' (hsettings.channels ▸ hchannels)
        ((hfiles file).mpr hfile) (hcontent ▸ htext), hcontent, hsettings.nameFor_eq, hsettings.channels]
    · rw [Assoc.get?_eq_none_iff.mpr (b'.keys_manifest ▸ mt (hfiles file).mp hfile),
        Assoc.get?_eq_none_iff.mpr (b.keys_manifest ▸ hfile)]
  have htext : Manifest.text (some b'.manifest) = Manifest.text (some b.manifest) := by
    have hkeys : (Assoc.keys b.manifest).Nodup := b.keys_manifest ▸ h.files
    have hkeys' : (Assoc.keys b'.manifest).Nodup := b'.keys_manifest ▸ h'.files
    rw [Manifest.text, Manifest.toJson, Assoc.sorted_congr hkeys' (Assoc.perm_of_get? hkeys' hkeys hmanifest)]
    rfl
  obtain ⟨t, hbuild, hheld, hlast, hother⟩ := exists_build hsink h hexts hapart s
  obtain ⟨t', hbuild', hheld', hlast', hother'⟩ := exists_build hsink h' (hsettings.channels ▸ hexts) hapart' s
  rw [hcontent, hsettings.nameFor_eq] at hheld' hother'
  rw [hsettings.manifestName] at hlast' hother'
  refine ⟨hmanifest, by rw [hbuild'], fun name => ?_⟩
  rw [hbuild, hbuild']
  -- each name is that of the manifest, of some artifact, or of nothing that is written
  by_cases hname : name = b.manifestName
  · rw [hname, hlast, hlast', htext]
  by_cases hartifact : ∃ file loader, b.content file loader ≠ [] ∧ b.nameFor file loader (b.content file loader) = name
  · obtain ⟨file, loader, htext, rfl⟩ := hartifact
    rw [hheld file loader htext, hheld' file loader htext]
  · have hnone (file loader : Bytes) (htext : b.content file loader ≠ []) :
        b.nameFor file loader (b.content file loader) ≠ name := fun heq => hartifact ⟨file, loader, htext, heq⟩
    rw [hother name hname hnone, hother' name hname hnone]

end Builds

/-- A build lists each file that was selected or added, and for it one artifact for each loader with text, which the sink
then holds. What it lists and what the sink holds depend on the texts alone. A file counts as added if nothing failed
then, or only the store did not take its record. -/
theorem build_collected {σ : Type} (sink : Sink σ) (held : σ → Bytes → Option Bytes) (b : Builder)
    (units : Option (UnitStore κ)) (k : κ) (requests : List Request) (s : σ) (hsink : sink.Lasting held) (hnew : b.IsNew)
    (hchannels : (b.channels.map (·.name)).Nodup) (hexts : ∀ c ∈ b.channels, ascii '.' ∉ c.ext)
    (hallowed : Ledger.AllowsAll units { builder := b, store := k } {} requests)
    (hapart : b.NamesApart (Ledger.noted b units k requests).text) :
    let l := Ledger.noted b units k requests
    ∃ m s', (b.after units k requests).build sink s = (.ok m, s') ∧
      (Assoc.keys m).Nodup ∧ (∀ file, file ∈ Assoc.keys m ↔ file ∈ l.files) ∧
      (∀ file ∈ l.files, ∃ loaders, loaders = listed b.channels (l.text file) (l.loaders file) ∧
        loaders.Nodup ∧ (∀ loader, loader ∈ loaders ↔ l.text file loader ≠ []) ∧
        Assoc.get? file m = some
          { entry := if l.text file Compile.primaryLoader = [] then []
              else b.nameFor file Compile.primaryLoader (l.text file Compile.primaryLoader)
            assets := some ((loaders.filter (· ≠ Compile.primaryLoader)).map fun loader =>
              b.nameFor file loader (l.text file loader)) }) ∧
      (∀ file loader, l.text file loader ≠ [] →
        held s' (b.nameFor file loader (l.text file loader)) = some (l.text file loader)) ∧
      held s' b.manifestName = some (Manifest.text (some m)) ∧
      (∀ name, name ≠ b.manifestName →
        (∀ file loader, l.text file loader ≠ [] → b.nameFor file loader (l.text file loader) ≠ name) →
          held s' name = held s name) ∧
      ∀ (units' : Option (UnitStore κ)) (k' : κ) (requests' : List Request),
        Ledger.AllowsAll units' { builder := b, store := k' } {} requests' →
        (∀ file, file ∈ (Ledger.noted b units' k' requests').files ↔ file ∈ l.files) →
        (∀ file loader, (Ledger.noted b units' k' requests').text file loader = l.text file loader) →
        ∃ m' s'', (b.after units' k' requests').build sink s = (.ok m', s'') ∧
          (∀ file, Assoc.get? file m' = Assoc.get? file m) ∧ ∀ name, held s'' name = held s' name := by
  intro l
  obtain ⟨hsettings, htidy, hfiles, hcontent⟩ := holds_after hnew hallowed
  have hchannels' : ((b.after units k requests).channels.map (·.name)).Nodup := hsettings.channels.symm ▸ hchannels
  have hexts' : ∀ c ∈ (b.after units k requests).channels, ascii '.' ∉ c.ext := hsettings.channels.symm ▸ hexts
  have hapart' : (b.after units k requests).NamesApart (b.after units k requests).content :=
    hcontent ▸ hapart.congr hsettings
  obtain ⟨s', hbuild, hheld, hlast, hother⟩ := exists_build hsink htidy hexts' hapart' s
  rw [hcontent, hsettings.nameFor_eq] at hheld hother
  rw [hsettings.manifestName] at hlast hother
  refine ⟨_, s', hbuild, (keys_manifest _).symm ▸ htidy.files, fun file => ?_, fun file hfile => ?_, hheld, hlast,
    hother, ?_⟩
  · rw [keys_manifest]
    exact hfiles file
  · have hloaders (loader : Bytes) (htext : (b.after units k requests).content file loader ≠ []) :
        loader ∈ l.loaders file := l.mem_loaders (hcontent ▸ htext)
    have hlisting := get?_manifest_eq htidy hchannels' ((hfiles file).mpr hfile) hloaders
    rw [hcontent, hsettings.nameFor_eq, hsettings.channels] at hlisting
    exact ⟨_, rfl, nodup_listed hchannels, mem_listed fun _ => l.mem_loaders, hlisting⟩
  · intro units' k' requests' hallowed' hfiles' htexts
    have h' := holds_after hnew hallowed'
    have hsameFiles (file : Bytes) := (h'.files file).trans ((hfiles' file).trans (hfiles file).symm)
    have hsameContent : (b.after units' k' requests').content = (b.after units k requests).content := by
      rw [h'.content, hcontent]
      exact funext fun file => funext (htexts file)
    obtain ⟨hmanifest, hresult, hheld'⟩ := build_congr hsink htidy h'.tidy (hsettings.symm.trans h'.settings) hchannels'
      hexts' hapart' hsameFiles hsameContent s
    rw [hbuild] at hheld'
    exact ⟨_, _, Prod.ext hresult rfl, hmanifest, hheld'⟩

/-- A store that is full has nothing and takes nothing. -/
def fullStore : UnitStore Unit where
  get _ k := (none, k)
  put _ _ _ k := (.error (.refused "cache full"), k)

/-- A page whose record the store does not take, and one that is cancelled, are added while text for two loaders is
added to another file. -/
theorem build_collected_site :
    let b : Builder := { registry := Directive.Standard.registry }
    let requests : List Request := [.select "a", .use "client", .add "x", .restore 0,
      .addFile "b" "@client()go()@end()" false, .addFile "c" "text" true, .add "y", .use "client", .add "z"]
    ∃ m files, (b.after (some fullStore) () requests).build Sink.memory [] = (.ok m, files) ∧
      (∀ file, file ∈ Assoc.keys m ↔ file = "a" ∨ file = "b") ∧
      Assoc.get? (b.nameFor "a" "client" "xz") files = some ("xz" : Bytes) ∧
      Assoc.get? (b.nameFor "a" "render" "y") files = some ("y" : Bytes) ∧
      Assoc.get? (b.nameFor "b" "client" "go()\n") files = some ("go()\n" : Bytes) := by
  intro b requests
  have hallowed : Ledger.AllowsAll (some fullStore) { builder := b, store := () } {} requests := by decide +kernel
  obtain ⟨l, hl⟩ : ∃ l, l = Ledger.noted b (some fullStore) () requests := ⟨_, rfl⟩
  have hfiles : l.files = (["a", "b"] : List Bytes) := by
    subst hl
    decide +kernel
  have htexts : l.text "a" "client" = "xz" ∧ l.text "a" "render" = "y" ∧ l.text "b" "client" = "go()\n" := by
    subst hl
    decide +kernel
  have hapart : b.NamesApart l.text := by
    subst hl
    exact .of_additions (by decide +kernel) (by decide +kernel)
  obtain ⟨m, files, hbuild, -, hkeys, -, hheld, -⟩ := build_collected Sink.memory _ b (some fullStore) () requests []
    Sink.lasting_memory ⟨rfl, rfl, rfl, rfl⟩ (by decide) (by decide) hallowed (hl ▸ hapart)
  rw [← hl] at hkeys hheld
  obtain ⟨hxz, hy, hgo⟩ := htexts
  refine ⟨m, files, hbuild, fun file => ?_, ?_, ?_, ?_⟩
  · rw [hkeys, hfiles, List.mem_pair]
  · exact hxz ▸ hheld "a" "client" (hxz ▸ by decide)
  · exact hy ▸ hheld "a" "render" (hy ▸ by decide)
  · exact hgo ▸ hheld "b" "client" (hgo ▸ by decide)

/-- A file that nobody selected is listed although adding it failed, if only the store did not take its record. -/
theorem not_listed_iff_succeeds : ¬ ∀ (b : Builder) (units : Option (UnitStore Unit)) (home path src : Bytes)
      (m : Manifest) (files : Assoc Bytes Bytes),
    let requests : List Request := [.select home, .addFile path src false]
    b.IsNew → (b.channels.map (·.name)).Nodup → (∀ c ∈ b.channels, ascii '.' ∉ c.ext) → home ≠ [] → path ≠ [] →
    b.NamesApart (Ledger.noted b units () requests).text →
    (b.after units () requests).build Sink.memory [] = (.ok m, files) →
      ∀ file, file ∈ Assoc.keys m ↔
        file = home ∨ (file = path ∧ ((b.select home).addFile units false path src ()).failure = none) := by
  intro h
  let b : Builder := { registry := Directive.Standard.registry }
  let requests : List Request := [.select "home", .addFile "page" "x" false]
  have hfails : ((b.select "home").addFile (some fullStore) false "page" "x" ()).failure.isSome = true := by
    decide +kernel
  have hlisted : ((b.after (some fullStore) () requests).build Sink.memory []).1.toOption.map Assoc.keys =
      some (["home", "page"] : List Bytes) := by decide +kernel
  have hapart : b.NamesApart (Ledger.noted b (some fullStore) () requests).text :=
    .of_additions (by decide +kernel) (by decide +kernel)
  rcases hbuild : (b.after (some fullStore) () requests).build Sink.memory [] with ⟨e | m, files⟩ <;>
    rw [hbuild] at hlisted
  · cases hlisted
  have hkeys : Assoc.keys m = ["home", "page"] := Option.some.inj hlisted
  have hpage : ("page" : Bytes) ∈ Assoc.keys m := by
    rw [hkeys]
    decide
  obtain hhome | ⟨-, hsucceeds⟩ := (h b (some fullStore) "home" "page" "x" m files ⟨rfl, rfl, rfl, rfl⟩ (by decide)
    (by decide) (by decide) (by decide) hapart hbuild "page").mp hpage
  · exact absurd hhome (by decide)
  · rw [hsucceeds] at hfails
    cases hfails

end Builder

end Stencil
