import AiOrg.Proofs.GoJson

/-!
# Source snapshots

A snapshot of the authority holds the content and the identity of each source, and its digest is over its paths and
contents. What is hashed is framed by lengths, so it tells the sources of a snapshot, the parts of an import closure and
the artifacts of a corpus apart (`preimages_injective`). The path that is reported for a change is the least one that
differs, unless only the identity of a file before it has changed (`source_change_iff`).
-/

namespace AiOrg

open List

namespace Coding

variable {α β γ : Type*} {code : α → List γ} {other : β → List γ}

theorem PrefixFree.comp {f : β → α} (h : PrefixFree code) (hf : Function.Injective f) :
    PrefixFree (code ∘ f) := fun a b s t heq => by
  obtain ⟨hab, hst⟩ := h _ _ _ _ heq
  exact ⟨hf hab, hst⟩

theorem PrefixFree.append (h : PrefixFree code) (hother : PrefixFree other) :
    PrefixFree fun pair : α × β => code pair.1 ++ other pair.2 := by
  rintro ⟨a, b⟩ ⟨c, d⟩ s t heq
  simp only [append_assoc] at heq
  obtain ⟨rfl, hrest⟩ := h _ _ _ _ heq
  obtain ⟨rfl, hst⟩ := hother _ _ _ _ hrest
  exact ⟨rfl, hst⟩

theorem PrefixFree.flatMap_length (h : PrefixFree code) {as bs : List α} {s t : List γ}
    (hlength : as.length = bs.length) (heq : as.flatMap code ++ s = bs.flatMap code ++ t) :
    as = bs ∧ s = t := by
  induction as generalizing bs with
  | nil =>
    obtain rfl := length_eq_zero_iff.1 hlength.symm
    exact ⟨rfl, heq⟩
  | cons a as ih =>
    obtain ⟨b, bs, rfl⟩ := exists_cons_of_length_eq_add_one hlength.symm
    rw [flatMap_cons, flatMap_cons, append_assoc, append_assoc] at heq
    obtain ⟨rfl, hrest⟩ := h _ _ _ _ heq
    obtain ⟨rfl, hst⟩ := ih (Nat.succ_injective hlength) hrest
    exact ⟨rfl, hst⟩

theorem PrefixFree.injective (h : PrefixFree code) : Function.Injective code := fun a b heq =>
  (h a b [] [] (congrArg (· ++ []) heq)).1

end Coding

namespace Repository

open Coding

/-- A slice, whose length is an `int`. -/
abbrev Slice (α : Type) := {l : List α // l.length < 2 ^ 63}

def Slice.map {α β : Type} (f : α → β) (l : Slice α) : Slice β :=
  ⟨l.1.map f, by rw [length_map]; exact l.2⟩

/-- A string of UTF-8, as `validateRelativePath` has the paths. -/
abbrev GoString := {s : String // (GoJson.utf8Bytes s.toList).length < 2 ^ 63}

def GoString.bytes (s : GoString) : Slice UInt8 := ⟨GoJson.utf8Bytes s.1.toList, s.2⟩

/-- `[sha256.Size]byte`. -/
abbrev Digest := {l : List UInt8 // l.length = 32}

/-- `binary.BigEndian.PutUint64`. -/
def putUint64 (n : ℕ) : List UInt8 :=
  [56, 48, 40, 32, 24, 16, 8, 0].map fun shift => UInt8.ofNat (n / 2 ^ shift)

def writeLengthPrefixed (value : Slice UInt8) : List UInt8 := putUint64 value.1.length ++ value.1

/-- The number of some values, and the values. -/
def writeCounted {α : Type} (code : α → List UInt8) (values : Slice α) : List UInt8 :=
  putUint64 values.1.length ++ values.1.flatMap code

def writeString (s : GoString) : List UInt8 := writeLengthPrefixed s.bytes

theorem putUint64_append {m n : ℕ} (hm : m < 2 ^ 63) (hn : n < 2 ^ 63) {s t : List UInt8}
    (h : putUint64 m ++ s = putUint64 n ++ t) : m = n ∧ s = t := by
  obtain ⟨hput, hst⟩ := append_inj h rfl
  refine ⟨?_, hst⟩
  have hstep : ∀ k, m / 2 ^ (k + 8) = n / 2 ^ (k + 8) → m / 2 ^ k % 2 ^ 8 = n / 2 ^ k % 2 ^ 8 →
      m / 2 ^ k = n / 2 ^ k := fun k hhigh hlow => by
    rw [pow_add, ← Nat.div_div_eq_div_mul, ← Nat.div_div_eq_div_mul] at hhigh
    omega
  simp only [putUint64, map_cons, map_nil, List.cons.injEq, ← UInt8.toNat_inj,
    UInt8.toNat_ofNat'] at hput
  obtain ⟨h₀, h₁, h₂, h₃, h₄, h₅, h₆, h₇, -⟩ := hput
  have htop : m / 2 ^ (56 + 8) = n / 2 ^ (56 + 8) := by
    rw [Nat.div_eq_of_lt (by omega), Nat.div_eq_of_lt (by omega)]
  have hall := hstep 0 (hstep 8 (hstep 16 (hstep 24 (hstep 32 (hstep 40 (hstep 48 (hstep 56 htop h₀) h₁) h₂) h₃) h₄)
    h₅) h₆) h₇
  simpa using hall

theorem prefixFree_lengthPrefixed : PrefixFree writeLengthPrefixed := by
  rintro ⟨a, ha⟩ ⟨b, hb⟩ s t heq
  simp only [writeLengthPrefixed, append_assoc] at heq
  obtain ⟨hlength, hrest⟩ := putUint64_append ha hb heq
  obtain ⟨rfl, hst⟩ := append_inj hrest hlength
  exact ⟨rfl, hst⟩

theorem prefixFree_counted {α : Type} {code : α → List UInt8} (h : PrefixFree code) :
    PrefixFree (writeCounted code) := by
  rintro ⟨a, ha⟩ ⟨b, hb⟩ s t heq
  simp only [writeCounted, append_assoc] at heq
  obtain ⟨hlength, hrest⟩ := putUint64_append ha hb heq
  obtain ⟨rfl, hst⟩ := h.flatMap_length hlength hrest
  exact ⟨rfl, hst⟩

theorem prefixFree_string : PrefixFree writeString :=
  prefixFree_lengthPrefixed.comp fun _ _ h => Subtype.ext <|
    String.toList_injective (GoJson.utf8Bytes_injective (congrArg Subtype.val h))

/-- `"."`, which is no path of a source. -/
def dot : GoString := ⟨".", by decide⟩

/-- What `CaptureSourceSnapshotV1` has read: for each path the content and the identity of the file. -/
structure Capture (ι : Type) where
  paths : Finset GoString
  content : GoString → Slice UInt8
  identity : GoString → ι
  count : paths.card < 2 ^ 63
  dot_notMem : dot ∉ paths

structure SourceFileV1 where
  path : GoString
  sha256 : Digest
  size : ℕ
  deriving DecidableEq

def snapshotDomainV1 : List UInt8 := GoJson.utf8Bytes "cuecodec/source-snapshot/v1\x00".toList

variable {ι : Type}

namespace Capture

def names (s : Capture ι) : Slice GoString :=
  ⟨s.paths.sort (· ≤ ·), by rw [Finset.length_sort]; exact s.count⟩

variable (sha256 : List UInt8 → Digest)

def file (s : Capture ι) (name : GoString) : SourceFileV1 :=
  ⟨name, sha256 (s.content name).1, (s.content name).1.length⟩

/-- `Files`. -/
def files (s : Capture ι) : List SourceFileV1 := s.names.1.map (s.file sha256)

/-- What the digest of a snapshot is of. -/
def preimage (s : Capture ι) : List UInt8 :=
  snapshotDomainV1 ++ writeCounted (fun source : GoString × Slice UInt8 =>
    writeString source.1 ++ writeLengthPrefixed source.2) (s.names.map fun name => (name, s.content name))

/-- `SHA256`. -/
def digest (s : Capture ι) : Digest := sha256 s.preimage

/-- The same contents at the same paths. -/
def SameContents (a b : Capture ι) : Prop :=
  a.paths = b.paths ∧ ∀ name ∈ a.paths, a.content name = b.content name

theorem mem_names {s : Capture ι} {name : GoString} : name ∈ s.names.1 ↔ name ∈ s.paths :=
  Finset.mem_sort _

theorem preimage_eq_iff {a b : Capture ι} : a.preimage = b.preimage ↔ SameContents a b := by
  constructor
  · intro h
    have hsources := (prefixFree_counted (prefixFree_string.append prefixFree_lengthPrefixed)).injective
      (append_cancel_left h)
    have hmap := congrArg Subtype.val hsources
    have hnames : a.names.1 = b.names.1 := by
      simpa [Slice.map, Function.comp_def] using congrArg (List.map Prod.fst) hmap
    refine ⟨?_, fun name hname => ?_⟩
    · rw [← Finset.sort_toFinset a.paths (· ≤ ·), ← Finset.sort_toFinset b.paths (· ≤ ·)]
      exact congrArg List.toFinset hnames
    · have heq : a.names.1.map (fun name => (name, a.content name)) =
          a.names.1.map fun name => (name, b.content name) := hmap.trans (by rw [hnames]; rfl)
      exact congrArg Prod.snd (map_inj_left.1 heq name (mem_names.2 hname))
  · rintro ⟨hpaths, hcontent⟩
    have hnames : a.names = b.names := Subtype.ext (congrArg (Finset.sort · (· ≤ ·)) hpaths)
    have hsources : (a.names.map fun name => (name, a.content name)) =
        b.names.map fun name => (name, b.content name) := by
      rw [← hnames]
      refine Subtype.ext (map_congr_left fun name hname => ?_)
      rw [hcontent name (mem_names.1 hname)]
    rw [preimage, preimage, hsources]

end Capture

section Sample

def moduleName : GoString := ⟨"cue.mod/module.cue", by decide⟩

def recordName : GoString := ⟨"cue/records/a.cue", by decide⟩

/-- Two empty sources. -/
def sample : Capture ℕ where
  paths := {moduleName, recordName}
  content _ := ⟨[], by decide⟩
  identity name := if name = moduleName then 0 else 2
  count := by decide
  dot_notMem := by decide

/-- The module is replaced by a copy, and the record is changed to a `1`. -/
def replaced : Capture ℕ :=
  { sample with
    content := fun name => if name = recordName then ⟨[0x31], by decide⟩ else ⟨[], by decide⟩
    identity := fun name => if name = moduleName then 1 else 2 }

def digestOf (n : ℕ) : Digest := ⟨(List.range 32).map fun i => UInt8.ofNat (n / 256 ^ (31 - i)), by simp⟩

/-- SHA-256 of the contents and of what is hashed for `sample`. -/
def sampleSha (bytes : List UInt8) : Digest :=
  if bytes = [] then digestOf 0xe3b0c44298fc1c149afbf4c8996fb92427ae41e4649b934ca495991b7852b855
  else if bytes = [0x31] then digestOf 0x6b86b273ff34fce19d6b804eff5a3f5747ada4eaa22f1d49c01e52ddb7875b4b
  else digestOf 0x06cc8d0e343178ad5abfd3d19a2f4ecd4eb8690cc9212be2d308d1d27271f139

end Sample

structure ImportEdgeV1 where
  fromPath : GoString
  importPath : GoString
  resolved : GoString
  builtin : Bool

structure ImportClosureV1 where
  module : GoString
  languageVersion : GoString
  files : Slice SourceFileV1
  edges : Slice ImportEdgeV1

def closureDomainV1 : List UInt8 := GoJson.utf8Bytes "cuecodec/import-closure/v1\x00".toList

def writeEdge (edge : ImportEdgeV1) : List UInt8 :=
  writeString edge.fromPath ++ (writeString edge.importPath ++ (writeString edge.resolved ++
    [if edge.builtin then 1 else 0]))

/-- What `hashClosure` hashes. -/
def closurePreimage (snapshot : Digest) (closure : ImportClosureV1) : List UInt8 :=
  closureDomainV1 ++ (snapshot.1 ++ (writeString closure.module ++ (writeString closure.languageVersion ++
    (writeCounted writeString (closure.files.map SourceFileV1.path) ++ writeCounted writeEdge closure.edges))))

structure CorpusArtifactV1 where
  recordPath : GoString
  bytes : Slice UInt8

/-- `sort.Slice` by the record paths, which leaves the order of equal ones open. -/
def Sorts (artifacts ordered : Slice CorpusArtifactV1) : Prop :=
  ordered.1.Perm artifacts.1 ∧ ordered.1.Pairwise fun a b => a.recordPath ≤ b.recordPath

/-- What `hashCorpusArtifactsV1` hashes, from the ordered artifacts on. -/
def corpusPreimage (domain : GoString) (ordered : Slice CorpusArtifactV1) : List UInt8 :=
  writeString domain ++ writeCounted (fun artifact =>
    writeString artifact.recordPath ++ writeLengthPrefixed artifact.bytes) ordered

theorem prefixFree_edge : PrefixFree writeEdge := by
  have hbuiltin : PrefixFree fun builtin : Bool => [if builtin then (1 : UInt8) else 0] := by
    rintro (_ | _) (_ | _) s t heq <;> simp_all
  have hedge := (prefixFree_string.append (prefixFree_string.append (prefixFree_string.append hbuiltin))).comp
    (f := fun edge : ImportEdgeV1 => (edge.fromPath, edge.importPath, edge.resolved, edge.builtin))
    fun a b h => by
      cases a
      cases b
      simpa using h
  exact hedge

/-- The bytes under the digest of a closure determine its module, its paths and its edges, and the digest of the
snapshot. -/
theorem closurePreimage_inj {s t : Digest} {c d : ImportClosureV1} (h : closurePreimage s c = closurePreimage t d) :
    s = t ∧ c.module = d.module ∧ c.languageVersion = d.languageVersion ∧
      c.files.map SourceFileV1.path = d.files.map SourceFileV1.path ∧ c.edges = d.edges := by
  obtain ⟨hdigest, h⟩ := append_inj (append_cancel_left h) (s.2.trans t.2.symm)
  obtain ⟨hmodule, h⟩ := prefixFree_string _ _ _ _ h
  obtain ⟨hversion, h⟩ := prefixFree_string _ _ _ _ h
  obtain ⟨hfiles, h⟩ := prefixFree_counted prefixFree_string _ _ _ _ h
  exact ⟨Subtype.ext hdigest, hmodule, hversion, hfiles, (prefixFree_counted prefixFree_edge).injective h⟩

theorem corpusPreimage_inj {domain domain' : GoString} {ordered ordered' : Slice CorpusArtifactV1}
    (h : corpusPreimage domain ordered = corpusPreimage domain' ordered') : domain = domain' ∧ ordered = ordered' := by
  have hartifact := (prefixFree_string.append prefixFree_lengthPrefixed).comp
    (f := fun artifact : CorpusArtifactV1 => (artifact.recordPath, artifact.bytes)) fun a b h => by
      cases a
      cases b
      simpa using h
  obtain ⟨hdomain, h⟩ := prefixFree_string _ _ _ _ h
  exact ⟨hdomain, (prefixFree_counted hartifact).injective h⟩

/-- What is hashed of two closures is different if their paths or edges or any content of their snapshots differ, and
of two corpora if they do not have the same artifacts. The digest of a closure is over the one of its snapshot. -/
theorem preimages_injective (sha256 : List UInt8 → Digest) :
    (∀ (a b : Capture ι) (c d : ImportClosureV1), (a.digest sha256 = b.digest sha256 → a.preimage = b.preimage) →
      (c.files.map SourceFileV1.path ≠ d.files.map SourceFileV1.path ∨ c.edges ≠ d.edges ∨
        c.module ≠ d.module ∨ c.languageVersion ≠ d.languageVersion ∨ ¬ a.SameContents b) →
      closurePreimage (a.digest sha256) c ≠ closurePreimage (b.digest sha256) d) ∧
    ∀ (domain : GoString) (artifacts artifacts' ordered ordered' : Slice CorpusArtifactV1), Sorts artifacts ordered →
      Sorts artifacts' ordered' → ¬ artifacts.1.Perm artifacts'.1 →
      corpusPreimage domain ordered ≠ corpusPreimage domain ordered' := by
  constructor
  · intro a b c d hsha hdiffer heq
    obtain ⟨hdigest, hmodule, hversion, hfiles, hedges⟩ := closurePreimage_inj heq
    rcases hdiffer with h | h | h | h | h
    · exact h hfiles
    · exact h hedges
    · exact h hmodule
    · exact h hversion
    · exact h (Capture.preimage_eq_iff.1 (hsha hdigest))
  · intro domain artifacts artifacts' ordered ordered' hsorts hsorts' hdiffer heq
    obtain ⟨-, rfl⟩ := corpusPreimage_inj heq
    exact hdiffer (hsorts.1.symm.trans hsorts'.1)

/-- The record is in a closure or not, and an artifact is in a corpus or not. -/
theorem preimages_sample :
    closurePreimage (sample.digest sampleSha) ⟨moduleName, dot, ⟨[sample.file sampleSha recordName], by decide⟩, ⟨[], by decide⟩⟩ ≠
        closurePreimage (sample.digest sampleSha) ⟨moduleName, dot, ⟨[], by decide⟩, ⟨[], by decide⟩⟩ ∧
      corpusPreimage dot ⟨[⟨recordName, ⟨[], by decide⟩⟩], by decide⟩ ≠ corpusPreimage dot ⟨[], by decide⟩ := by
  obtain ⟨hclosures, hcorpora⟩ := preimages_injective (ι := ℕ) sampleSha
  refine ⟨hclosures sample sample _ _ (fun _ => rfl) (.inl ?_), hcorpora dot _ _ _ _
    ⟨List.Perm.refl _, by simp⟩ ⟨List.Perm.refl _, by simp⟩ (by simp)⟩
  simp [Slice.map]

/-! ### Changes -/

/-- Up to the first source that is not the same in both lists. -/
def firstInventoryDifference : List SourceFileV1 → List SourceFileV1 → GoString
  | x :: a, y :: b =>
    if x.path < y.path then x.path
    else if y.path < x.path then y.path
    else if x ≠ y then x.path
    else firstInventoryDifference a b
  | x :: _, [] => x.path
  | [], y :: _ => y.path
  | [], [] => dot

/-- A source is in both snapshots as the same file, by `os.SameFile`. -/
def sameIdentity (same : ι → ι → Bool) (a b : Capture ι) (name : GoString) : Bool :=
  decide (name ∈ a.paths) && decide (name ∈ b.paths) && same (a.identity name) (b.identity name)

def firstSnapshotDifference (sha256 : List UInt8 → Digest) (same : ι → ι → Bool) (a b : Capture ι) : GoString :=
  let name := firstInventoryDifference (a.files sha256) (b.files sha256)
  if name ≠ dot then name
  else (((a.paths ∪ b.paths).sort (· ≤ ·)).find? fun name => !sameIdentity same a b name).getD dot

section Changes

variable (sha256 : List UInt8 → Digest) (same : ι → ι → Bool) (a b : Capture ι)

/-- A source is in one snapshot only, or its content differs. -/
def InventoryDiffers (name : GoString) : Prop :=
  ¬ (name ∈ a.paths ↔ name ∈ b.paths) ∨ name ∈ a.paths ∧ name ∈ b.paths ∧ a.content name ≠ b.content name

/-- A source is in both snapshots, but not as the same file. -/
def IdentityDiffers (name : GoString) : Prop :=
  name ∈ a.paths ∧ name ∈ b.paths ∧ same (a.identity name) (b.identity name) = false

def Differs (name : GoString) : Prop := InventoryDiffers a b name ∨ IdentityDiffers same a b name

/-- The path that is reported is the least one that differs, and `"."` where none does. -/
def ReportsFirst : Prop :=
  (firstSnapshotDifference sha256 same a b = dot ↔ ∀ name, ¬ Differs same a b name) ∧
    ((∃ name, Differs same a b name) → IsLeast {name | Differs same a b name} (firstSnapshotDifference sha256 same a b))

variable {sha256 same a b}

section Merge

variable {x y : SourceFileV1} {xs ys : List SourceFileV1}

/-- The paths with a source that is in one of two lists only. -/
def Unshared (xs ys : List SourceFileV1) : Set GoString := {name | ∃ x, x.path = name ∧ ¬ (x ∈ xs ↔ x ∈ ys)}

theorem isLeast_unshared (hx : ¬ (x ∈ xs ↔ x ∈ ys)) (hxs : ∀ z ∈ xs, x.path ≤ z.path)
    (hys : ∀ z ∈ ys, x.path ≤ z.path) : IsLeast (Unshared xs ys) x.path := by
  refine ⟨⟨x, rfl, hx⟩, ?_⟩
  rintro _ ⟨z, rfl, hz⟩
  by_cases hmem : z ∈ xs
  · exact hxs z hmem
  · exact hys z (by simpa [hmem] using hz)

/-- The merge of two sorted lists stops at the first path with a source that is in one of them only. -/
theorem firstInventoryDifference_spec : ∀ {xs ys : List SourceFileV1},
    xs.Pairwise (fun x y => x.path < y.path) → ys.Pairwise (fun x y => x.path < y.path) →
      xs = ys ∧ firstInventoryDifference xs ys = dot ∨
        IsLeast (Unshared xs ys) (firstInventoryDifference xs ys) := by
  have hhead : ∀ {x : SourceFileV1} {xs : List SourceFileV1}, (x :: xs).Pairwise (fun x y => x.path < y.path) →
      ∀ z ∈ x :: xs, x.path ≤ z.path := fun h =>
    forall_mem_cons.2 ⟨le_rfl, fun z hz => ((pairwise_cons.1 h).1 z hz).le⟩
  intro xs ys hxs hys
  induction xs generalizing ys with
  | nil =>
    cases ys with
    | nil => exact .inl ⟨rfl, rfl⟩
    | cons y ys => exact .inr (isLeast_unshared (by simp) (by simp) (hhead hys))
  | cons x xs ih =>
    cases ys with
    | nil => exact .inr (isLeast_unshared (by simp) (hhead hxs) (by simp))
    | cons y ys =>
      obtain ⟨hx, hxs'⟩ := pairwise_cons.1 hxs
      obtain ⟨hy, hys'⟩ := pairwise_cons.1 hys
      rw [firstInventoryDifference]
      split_ifs with hlt hgt hne
      · refine .inr (isLeast_unshared (fun h => ?_) (hhead hxs) fun z hz => hlt.le.trans (hhead hys z hz))
        exact absurd hlt (not_lt.2 (hhead hys x (h.1 mem_cons_self)))
      · refine .inr (isLeast_unshared (fun h => ?_) (fun z hz => hgt.le.trans (hhead hxs z hz)) (hhead hys))
        exact absurd hgt (not_lt.2 (hhead hxs y (h.2 mem_cons_self)))
      · have hpath : x.path = y.path := le_antisymm (not_lt.1 hgt) (not_lt.1 hlt)
        refine .inr (isLeast_unshared (fun h => ?_) (hhead hxs) (hpath ▸ hhead hys))
        rcases mem_cons.1 (h.1 mem_cons_self) with heq | hmem
        · exact hne heq
        · exact lt_irrefl _ (hpath ▸ hy x hmem)
      · obtain rfl := not_not.1 hne
        have hiff : Unshared (x :: xs) (x :: ys) = Unshared xs ys := by
          refine Set.ext fun name => exists_congr fun z => and_congr_right fun _ => not_congr ?_
          by_cases hzx : z = x
          · subst hzx
            have hnot : z ∉ xs := fun h => lt_irrefl _ (hx z h)
            have hnot' : z ∉ ys := fun h => lt_irrefl _ (hy z h)
            simp [hnot, hnot']
          · simp [hzx]
        rw [hiff]
        exact (ih hxs' hys').imp_left fun h => ⟨congrArg (x :: ·) h.1, h.2⟩

end Merge

theorem mem_files {s : Capture ι} {x : SourceFileV1} :
    x ∈ s.files sha256 ↔ x.path ∈ s.paths ∧ x = s.file sha256 x.path := by
  rw [Capture.files, mem_map]
  constructor
  · rintro ⟨name, hname, rfl⟩
    exact ⟨Capture.mem_names.1 hname, rfl⟩
  · rintro ⟨hpath, hx⟩
    exact ⟨x.path, Capture.mem_names.2 hpath, hx.symm⟩

/-- SHA-256 tells the contents at a path apart. -/
def TellsApart (sha256 : List UInt8 → Digest) (a b : Capture ι) : Prop :=
  ∀ name ∈ a.paths ∩ b.paths, sha256 (a.content name).1 = sha256 (b.content name).1 →
    (a.content name).1 = (b.content name).1

theorem inventoryDiffers_iff (hsha : TellsApart sha256 a b) (name : GoString) :
    InventoryDiffers a b name ↔ name ∈ Unshared (a.files sha256) (b.files sha256) := by
  have hmem : ∀ {s : Capture ι}, s.file sha256 name ∈ s.files sha256 ↔ name ∈ s.paths := fun {s} => by
    rw [mem_files]
    exact and_iff_left rfl
  constructor
  · rintro (hpresent | ⟨ha, hb, hcontent⟩)
    · by_cases ha : name ∈ a.paths
      · have hb : name ∉ b.paths := fun hb => hpresent (iff_of_true ha hb)
        exact ⟨a.file sha256 name, rfl, fun h => hb (mem_files.1 (h.1 (hmem.2 ha))).1⟩
      · have hb : name ∈ b.paths := by simpa [ha] using hpresent
        exact ⟨b.file sha256 name, rfl, fun h => ha (mem_files.1 (h.2 (hmem.2 hb))).1⟩
    · refine ⟨a.file sha256 name, rfl, fun h => hcontent (Subtype.ext ?_)⟩
      have hfile := (mem_files.1 (h.1 (hmem.2 ha))).2
      exact hsha name (Finset.mem_inter.2 ⟨ha, hb⟩) (congrArg SourceFileV1.sha256 hfile)
  · rintro ⟨x, rfl, hx⟩
    rw [mem_files, mem_files] at hx
    by_contra hnot
    obtain ⟨hpresent, hsame⟩ := not_or.1 hnot
    rw [not_not] at hpresent
    rw [hpresent] at hx hsame
    refine hx (and_congr_right fun hb => ?_)
    have hcontent : a.content x.path = b.content x.path := not_not.1 fun h => hsame ⟨hb, hb, h⟩
    rw [Capture.file, Capture.file, hcontent]

theorem not_inventoryDiffers_dot : ¬ InventoryDiffers a b dot := by
  rintro (h | h)
  · exact h (iff_of_false a.dot_notMem b.dot_notMem)
  · exact a.dot_notMem h.1

theorem firstInventoryDifference_files (hsha : TellsApart sha256 a b) :
    (∀ name, ¬ InventoryDiffers a b name) ∧ firstInventoryDifference (a.files sha256) (b.files sha256) = dot ∨
      IsLeast {name | InventoryDiffers a b name}
        (firstInventoryDifference (a.files sha256) (b.files sha256)) := by
  have hsorted : ∀ s : Capture ι, (s.files sha256).Pairwise fun x y => x.path < y.path := fun s =>
    pairwise_map.2 s.paths.sortedLT_sort.pairwise
  have hset : {name | InventoryDiffers a b name} = Unshared (a.files sha256) (b.files sha256) :=
    Set.ext fun name => inventoryDiffers_iff hsha name
  rw [hset]
  refine (firstInventoryDifference_spec (hsorted a) (hsorted b)).imp_left fun h => ⟨fun name hname => ?_, h.2⟩
  obtain ⟨x, -, hx⟩ := (inventoryDiffers_iff hsha name).1 hname
  exact hx (by rw [h.1])

variable (same) in
/-- A change of the inventory is reported at the least path with one. -/
theorem isLeast_inventory (hsha : TellsApart sha256 a b) (h : ∃ name, InventoryDiffers a b name) :
    IsLeast {name | InventoryDiffers a b name} (firstSnapshotDifference sha256 same a b) := by
  obtain ⟨name, hname⟩ := h
  rcases firstInventoryDifference_files hsha with ⟨hnone, -⟩ | hleast
  · exact absurd hname (hnone name)
  · rw [firstSnapshotDifference]
    rwa [if_pos fun hdot => not_inventoryDiffers_dot (hdot ▸ hleast.1)]

theorem reportsFirst_of_isLeast
    (h : IsLeast {name | Differs same a b name} (firstSnapshotDifference sha256 same a b)) :
    ReportsFirst sha256 same a b := by
  refine ⟨⟨fun hdot => absurd (hdot ▸ h.1 : Differs same a b dot) ?_, fun hnone => absurd h.1 (hnone _)⟩, fun _ => h⟩
  rintro (hdot | hdot)
  · exact not_inventoryDiffers_dot hdot
  · exact a.dot_notMem hdot.1

/-- Without one, another file is reported at the least path with one. -/
theorem reportsFirst_identity (hsha : TellsApart sha256 a b) (h : ∀ name, ¬ InventoryDiffers a b name) :
    ReportsFirst sha256 same a b := by
  have hdot : firstInventoryDifference (a.files sha256) (b.files sha256) = dot :=
    (firstInventoryDifference_files hsha).elim And.right fun hleast => absurd hleast.1 (h _)
  have hfirst : firstSnapshotDifference sha256 same a b =
      (((a.paths ∪ b.paths).sort (· ≤ ·)).find? fun name => !sameIdentity same a b name).getD dot := by
    rw [firstSnapshotDifference, hdot]
    exact if_neg (not_not.2 rfl)
  have hdiffers : ∀ name, Differs same a b name ↔
      name ∈ (a.paths ∪ b.paths).sort (· ≤ ·) ∧ (!sameIdentity same a b name) = true := by
    intro name
    have hpath : name ∈ a.paths ↔ name ∈ b.paths := not_not.1 fun hpresent => h name (.inl hpresent)
    rw [Differs, or_iff_right (h name), IdentityDiffers, Finset.mem_sort, Finset.mem_union]
    by_cases hname : name ∈ b.paths <;> simp [sameIdentity, hpath, hname]
  rcases hfind : ((a.paths ∪ b.paths).sort (· ≤ ·)).find? fun name => !sameIdentity same a b name with _ | first
  · have hnone : ∀ name, ¬ Differs same a b name := fun name hname => by
      obtain ⟨hmem, hq⟩ := (hdiffers name).1 hname
      exact find?_eq_none.1 hfind name hmem hq
    rw [hfind] at hfirst
    exact ⟨iff_of_true hfirst hnone, fun ⟨name, hname⟩ => absurd hname (hnone name)⟩
  · obtain ⟨hq, before, after, hsplit, hbefore⟩ := find?_eq_some_iff_append.1 hfind
    rw [hfind] at hfirst
    refine reportsFirst_of_isLeast ?_
    rw [hfirst]
    refine ⟨(hdiffers first).2 ⟨mem_of_find?_eq_some hfind, hq⟩, fun name hname => ?_⟩
    obtain ⟨hmem, hqname⟩ := (hdiffers name).1 hname
    have hsorted := (a.paths ∪ b.paths).pairwise_sort (· ≤ ·)
    rw [hsplit] at hmem hsorted
    rcases mem_append.1 hmem with hmem | hmem
    · have := hbefore name hmem
      rw [hqname] at this
      cases this
    · exact (mem_cons.1 hmem).elim (fun heq => heq.ge)
        ((pairwise_cons.1 (pairwise_append.1 hsorted).2.1).1 name)

theorem reportsFirst_iff (hsha : TellsApart sha256 a b) : ReportsFirst sha256 same a b ↔
    ∀ name, IdentityDiffers same a b name → (∃ other, InventoryDiffers a b other) →
      ∃ other ≤ name, InventoryDiffers a b other := by
  constructor
  · intro h name hname hsome
    have hleast := isLeast_inventory same hsha hsome
    exact ⟨_, (h.2 ⟨name, .inr hname⟩).2 (.inr hname), hleast.1⟩
  · intro h
    by_cases hsome : ∃ name, InventoryDiffers a b name
    · have hleast := isLeast_inventory same hsha hsome
      refine reportsFirst_of_isLeast ⟨.inl hleast.1, ?_⟩
      rintro name (hname | hname)
      · exact hleast.2 hname
      · obtain ⟨other, hle, hother⟩ := h name hname hsome
        exact (hleast.2 hother).trans hle
    · exact reportsFirst_identity hsha (not_exists.1 hsome)

end Changes

inductive FailureClass
  | boundary | read | changed
  deriving DecidableEq

structure Failure where
  failureClass : FailureClass
  path : List UInt8
  rule : String
  deriving DecidableEq

def repositoryCodeRank : FailureClass → ℕ
  | .boundary => 1
  | .read => 2
  | .changed => 2

def ruleOrder : List String :=
  ["repository-root", "repository", "empty-root", "invalid-root", "root-unavailable", "root-symlink",
    "root-not-directory", "invalid-path", "path-escape", "path-unavailable", "symlink", "special-file",
    "file-unavailable", "walk-unavailable", "changed-during-read", "snapshot-content", "source-changed"]

def repositoryRuleRank (rule : String) : ℕ :=
  match ruleOrder.idxOf? rule with
  | some i => i + 1
  | none => 255

/-- The bytes of a path, which are compared in order. -/
def Failure.pathKey (f : Failure) : List ℕ := f.path.map UInt8.toNat

def compareRepositoryFailures (a b : Failure) : ℤ :=
  if repositoryCodeRank a.failureClass ≠ repositoryCodeRank b.failureClass then
    if repositoryCodeRank a.failureClass < repositoryCodeRank b.failureClass then -1 else 1
  else if a.pathKey < b.pathKey then -1
  else if b.pathKey < a.pathKey then 1
  else if repositoryRuleRank a.rule ≠ repositoryRuleRank b.rule then
    if repositoryRuleRank a.rule < repositoryRuleRank b.rule then -1 else 1
  else if a.rule < b.rule then -1
  else if b.rule < a.rule then 1
  else 0

def selectRepositoryFailure (candidates : List Failure) : Option Failure :=
  candidates.foldl (fun selected candidate => match selected with
    | none => some candidate
    | some best => if compareRepositoryFailures candidate best < 0 then some candidate else some best) none

/-- The rules of the failures that `captureOne` and `captureTree` make, each with its class. -/
def walkRules : List (String × FailureClass) :=
  [("invalid-path", .boundary), ("path-escape", .boundary), ("path-unavailable", .read), ("symlink", .boundary),
    ("root-unavailable", .read), ("root-not-directory", .boundary), ("walk-unavailable", .read),
    ("file-unavailable", .read), ("special-file", .boundary), ("changed-during-read", .changed)]

def Failure.Met (f : Failure) : Prop := (f.rule, f.failureClass) ∈ walkRules

def failureKey (f : Failure) : ℕ ×ₗ (List ℕ ×ₗ (ℕ ×ₗ String)) :=
  toLex (repositoryCodeRank f.failureClass, toLex (f.pathKey, toLex (repositoryRuleRank f.rule, f.rule)))

theorem compareRepositoryFailures_neg {a b : Failure} :
    compareRepositoryFailures a b < 0 ↔ failureKey a < failureKey b := by
  rw [failureKey, failureKey, Prod.Lex.toLex_lt_toLex, Prod.Lex.toLex_lt_toLex, Prod.Lex.toLex_lt_toLex,
    compareRepositoryFailures]
  split_ifs with hcode hlt hpath hpath' hrank hrank' hrule <;> simp_all [le_antisymm_iff, not_lt]

theorem selectRepositoryFailure_eq (candidates : List Failure) :
    selectRepositoryFailure candidates = Selection.least failureKey candidates := by
  induction candidates using reverseRecOn with
  | nil => rfl
  | append_singleton candidates f ih =>
    unfold selectRepositoryFailure at ih ⊢
    rw [foldl_append, ih, Selection.least_append_singleton, foldl_cons, foldl_nil]
    rcases Selection.least failureKey candidates with _ | best
    · rfl
    · simp only [Selection.better, compareRepositoryFailures_neg]
      split_ifs <;> rfl

/-- The order in which the walk meets its failures does not matter. -/
theorem selectRepositoryFailure_perm {failures failures' : List Failure} (hmet : ∀ f ∈ failures, f.Met)
    (h : failures.Perm failures') : selectRepositoryFailure failures = selectRepositoryFailure failures' := by
  rw [selectRepositoryFailure_eq, selectRepositoryFailure_eq]
  refine Selection.least_perm failureKey h fun f hf g hg heq => ?_
  have hrules : ∀ x ∈ walkRules, ∀ y ∈ walkRules, x.1 = y.1 → x = y := by decide
  have hkey := toLex_inj.1 heq
  simp only [Prod.mk.injEq, toLex_inj, Failure.pathKey] at hkey
  obtain ⟨-, hpath, -, hrule⟩ := hkey
  have hpath := map_injective_iff.2 (fun _ _ => UInt8.toNat_inj.1) hpath
  have hclass := hrules _ (hmet f hf) _ (hmet g hg) hrule
  cases f
  cases g
  simp_all

/-- The digests of two snapshots tell their contents apart and the walk selects one failure. So the reports are exact
if and only if no file before the first change of the inventory has changed its identity alone. -/
theorem source_change_iff (sha256 : List UInt8 → Digest) (same : ι → ι → Bool) (a b : Capture ι)
    (hcontent : TellsApart sha256 a b) (hdigest : a.digest sha256 = b.digest sha256 → a.preimage = b.preimage) :
    (ReportsFirst sha256 same a b ∧ (a.digest sha256 = b.digest sha256 ↔ a.SameContents b) ∧
      ∀ failures failures' : List Failure, (∀ f ∈ failures, f.Met) → failures.Perm failures' →
        selectRepositoryFailure failures = selectRepositoryFailure failures') ↔
    ∀ name, IdentityDiffers same a b name → (∃ other, InventoryDiffers a b other) →
      ∃ other ≤ name, InventoryDiffers a b other := by
  have hsame : a.digest sha256 = b.digest sha256 ↔ a.SameContents b :=
    ⟨fun h => Capture.preimage_eq_iff.1 (hdigest h), fun h => congrArg sha256 (Capture.preimage_eq_iff.2 h)⟩
  rw [← reportsFirst_iff hcontent]
  exact and_iff_left ⟨hsame, fun _ _ hmet h => selectRepositoryFailure_perm hmet h⟩

theorem source_change_sample : ReportsFirst sampleSha (fun i j : ℕ => i == j) sample sample := by
  refine ((source_change_iff sampleSha (fun i j : ℕ => i == j) sample sample (fun _ _ _ => rfl) fun _ => rfl).2
    fun name _ hsome => ?_).1
  obtain ⟨other, hother | hother⟩ := hsome
  · exact absurd Iff.rfl hother
  · exact absurd rfl hother.2.2

/-- The change of the record hides that the module, which comes before it, is another file. -/
theorem not_reportsFirst_replaced : ¬ ReportsFirst sampleSha (fun i j : ℕ => i == j) sample replaced := by
  intro h
  have hcontent : ∀ name, name ≠ recordName → sample.content name = replaced.content name := fun name hname =>
    (if_neg hname).symm
  have hrecord : sample.content recordName ≠ replaced.content recordName := by decide
  have hsha : TellsApart sampleSha sample replaced := by
    intro name _ heq
    by_cases hname : name = recordName
    · subst hname
      exact absurd heq (by decide)
    · rw [hcontent name hname]
  have hleast := isLeast_inventory (fun i j : ℕ => i == j) hsha
    ⟨recordName, .inr ⟨by simp [sample], by simp [replaced, sample], hrecord⟩⟩
  have hfirst : firstSnapshotDifference sampleSha (fun i j : ℕ => i == j) sample replaced = recordName := by
    by_contra hne
    rcases hleast.1 with hpresent | ⟨-, -, hdiffers⟩
    · exact hpresent Iff.rfl
    · exact hdiffers (hcontent _ hne)
  have hmodule : Differs (fun i j : ℕ => i == j) sample replaced moduleName :=
    .inr ⟨by simp [sample], by simp [replaced, sample], by decide⟩
  have hle := (h.2 ⟨_, hmodule⟩).2 hmodule
  rw [hfirst] at hle
  exact absurd hle (by decide)

end Repository

end AiOrg
