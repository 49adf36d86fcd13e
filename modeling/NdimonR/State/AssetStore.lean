import NdimonR.Library.Outcome
import NdimonR.State.PlanDetects

/-! The store of uploaded images: a directory of files under their digests, and the collection of
those that no document names and no upload holds. -/

namespace NdimonR.State.AssetStore

open NdimonR.Types Json Text

abbrev Bytes := List UInt8

def maxLogoBytes : ℕ := 3 * 1024 * 1024

def mediaType (bytes : Bytes) : Except String String :=
  if maxLogoBytes < bytes.length then .error "logo is larger than 3 MB"
  else if [0x89, 0x50, 0x4E, 0x47, 0x0D, 0x0A, 0x1A, 0x0A].isPrefixOf bytes then .ok "image/png"
  else if [0xFF, 0xD8, 0xFF].isPrefixOf bytes then .ok "image/jpeg"
  else .error "logo must be PNG or JPEG"

def validHash (hash : String) : Bool :=
  len hash == 64 && all (fun c => isAsciiDigit c || ('a' ≤ c && c ≤ 'f')) hash

def extension (media : String) : Except String String :=
  if media = "image/png" then .ok "png"
  else if media = "image/jpeg" then .ok "jpg"
  else .error "logo must be PNG or JPEG"

/-- What stands under a name of the asset directory: a regular file, or a directory, a link or
another thing that is none. -/
inductive Entry where
  | file (bytes : Bytes)
  | other
  deriving DecidableEq

/-- The asset directory; one that is not there has no names. -/
abbrev Directory := String → Option Entry

namespace Directory

/-- `atomic` puts a whole file in place of a regular file or of nothing. -/
def write (name : String) (bytes : Bytes) (d : Directory) : Except String Directory :=
  if d name = some .other then .error "nonregular state destination"
  else .ok (Function.update d name (some (.file bytes)))

/-- Writes one after the other. -/
def writeAll (files : List (String × Bytes)) (d : Directory) : Except String Directory :=
  files.foldlM (fun d file => d.write file.1 file.2) d

end Directory

variable (digest : Bytes → String)

/-- The asset that an upload makes, and its files. `digest` is the SHA-256 of some bytes in
lowercase hexadecimal digits. -/
def stored (bytes : Bytes) : Except String (AssetRef × List (String × Bytes)) := do
  let media ← mediaType bytes
  let ext ← extension media
  let hash := digest bytes
  return (⟨hash, media⟩, [(hash, bytes), (hash ++ "." ++ ext, bytes)])

def read (d : Directory) (asset : AssetRef) : Except String Bytes :=
  if !validHash asset.sha256 then .error "invalid asset hash"
  else
    match d asset.sha256 with
    | none => .error "No such file or directory (os error 2)"
    | some .other => .error "invalid asset file"
    | some (.file bytes) =>
      if maxLogoBytes < bytes.length then .error "invalid asset file"
      else
        match mediaType bytes with
        | .error e => .error e
        | .ok media =>
          if media ≠ asset.mediaType ∨ digest bytes ≠ asset.sha256 then
            .error "asset digest or media type mismatch"
          else .ok bytes

/-- Reads an asset and writes its file for the renderer once more. -/
def reconcile (asset : AssetRef) (d : Directory) : Except String Directory := do
  let bytes ← read digest d asset
  let ext ← extension asset.mediaType
  d.write (asset.sha256 ++ "." ++ ext) bytes

/-- The display's part of `validate_assets`; no other domain has one. -/
def validateAssets (document : DesiredState) (d : Directory) : Except String Directory :=
  match document.display.splash.logo with
  | none => .ok d
  | some asset => reconcile digest asset d

/-! ### Collection -/

mutual
/-- The digests under `sha256` members, at every depth. -/
def references : Json → List String
  | .obj members =>
    (match member "sha256" (.obj members) with
      | .str hash => if validHash hash then [hash] else []
      | _ => []) ++ memberReferences members
  | .arr items => itemReferences items
  | _ => []

def memberReferences : List (String × Json) → List String
  | [] => []
  | (_, x) :: rest => references x ++ memberReferences rest

def itemReferences : List Json → List String
  | [] => []
  | x :: rest => references x ++ itemReferences rest
end

def documentReferences (document : DesiredState) : List String :=
  references (desiredStateJson document).val

/-- What a collection keeps: the digests that are pinned, and those of both documents. -/
def keeps (pins : String → ℕ) (current : DesiredState) (previous : Option DesiredState)
    (hash : String) : Bool :=
  decide (0 < pins hash) || (documentReferences current).contains hash ||
    previous.any fun document => (documentReferences document).contains hash

/-- A name without the ending of an image. -/
def stem (name : String) : String :=
  ((stripSuffix ".png" name).orElse fun _ => stripSuffix ".jpg" name).getD name

/-- The files that a collection removes. -/
def unused (keep : String → Bool) (d : Directory) (name : String) : Bool :=
  validHash (stem name) && !keep (stem name) && match d name with
    | some (.file _) => true
    | _ => false

/-- What is left once these of the unused files are gone. -/
def collect (keep gone : String → Bool) (d : Directory) : Directory := fun name =>
  if unused keep d name && gone name then none else d name

/-! ### Names -/

theorem hex_of_valid {hash : String} (h : validHash hash = true) :
    ∀ c ∈ hash.toList, c ≠ '.' := by
  simp only [validHash, all, Bool.and_eq_true, List.all_eq_true] at h
  rintro c hc rfl
  exact absurd (h.2 _ hc) (by decide)

theorem not_valid_dotted {name : String} (h : '.' ∈ name.toList) : validHash name = false := by
  by_contra hvalid
  exact hex_of_valid (eq_true_of_ne_false hvalid) '.' h rfl

/-- A digest has no ending to lose. -/
theorem stem_of_valid {hash : String} (h : validHash hash = true) : stem hash = hash := by
  have hnone : ∀ lit : String, '.' ∈ lit.toList → stripSuffix lit hash = none := by
    intro lit hdot
    unfold stripSuffix
    rw [if_neg]
    intro hsuffix
    obtain ⟨rest, hrest⟩ := List.isSuffixOf_iff_suffix.mp hsuffix
    refine hex_of_valid h '.' ?_ rfl
    rw [← hrest]
    exact List.mem_append_right _ hdot
  unfold stem
  rw [hnone ".png" (by decide), hnone ".jpg" (by decide)]
  rfl

/-! ### Readable assets -/

section Readable

variable {digest}

/-- The bytes of the asset are there, with its digest and media type. -/
def Holds (digest : Bytes → String) (d : Directory) (asset : AssetRef) : Prop :=
  ∃ bytes, read digest d asset = .ok bytes

theorem read_eq_ok {d : Directory} {asset : AssetRef} {bytes : Bytes} :
    read digest d asset = .ok bytes ↔ validHash asset.sha256 = true ∧
      d asset.sha256 = some (.file bytes) ∧ mediaType bytes = .ok asset.mediaType ∧
        digest bytes = asset.sha256 := by
  unfold read
  cases hvalid : validHash asset.sha256 with
  | false => simp
  | true =>
    cases hentry : d asset.sha256 with
    | none => simp
    | some entry =>
      cases entry with
      | other => simp
      | file stored =>
        simp only [Bool.not_true, Bool.false_eq_true, if_false, true_and, Option.some.injEq,
          Entry.file.injEq]
        constructor
        · intro h
          split_ifs at h
          split at h
          · cases h
          · rename_i media hmedia
            split_ifs at h with hwrong
            rw [not_or, not_not, not_not] at hwrong
            cases h
            exact ⟨rfl, hwrong.1 ▸ hmedia, hwrong.2⟩
        · rintro ⟨rfl, hmedia, hdigest⟩
          have hshort : ¬maxLogoBytes < stored.length := by
            intro hlong
            rw [mediaType, if_pos hlong] at hmedia
            cases hmedia
          rw [if_neg hshort, hmedia]
          simp [hdigest]

instance (d : Directory) (asset : AssetRef) : Decidable (Holds digest d asset) :=
  decidable_of_iff ((read digest d asset).isOk = true) (by
    unfold Holds
    cases read digest d asset <;> simp [Except.isOk, Except.toBool])

theorem Holds.valid {d : Directory} {asset : AssetRef} (h : Holds digest d asset) :
    validHash asset.sha256 = true := by
  obtain ⟨bytes, hread⟩ := h
  exact (read_eq_ok.mp hread).1

/-- No two images of different media types have one digest. -/
def Distinct (digest : Bytes → String) : Prop :=
  ∀ a b media media', mediaType a = .ok media → mediaType b = .ok media' →
    digest a = digest b → media = media'

theorem write_eq_ok {d d' : Directory} {name : String} {bytes : Bytes} :
    d.write name bytes = .ok d' ↔
      d name ≠ some .other ∧ d' = Function.update d name (some (.file bytes)) := by
  unfold Directory.write
  split_ifs with h <;> simp [h, eq_comm]

/-- An asset goes on being readable where something else is written, or an image with its digest. -/
theorem Holds.write (hdistinct : Distinct digest) {d d' : Directory} {asset : AssetRef}
    (h : Holds digest d asset) {name : String} {bytes : Bytes} {media : String}
    (hmedia : mediaType bytes = .ok media) (hname : name = digest bytes ∨ '.' ∈ name.toList)
    (hwrite : d.write name bytes = .ok d') : Holds digest d' asset := by
  obtain ⟨before, hread⟩ := h
  obtain ⟨hvalid, hfile, htype, hdigest⟩ := read_eq_ok.mp hread
  obtain ⟨_, rfl⟩ := write_eq_ok.mp hwrite
  by_cases hsame : asset.sha256 = name
  · rcases hname with rfl | hdot
    · have htype' := hdistinct before bytes _ _ htype hmedia (hdigest.trans hsame)
      refine ⟨bytes, read_eq_ok.mpr ⟨hvalid, ?_, htype' ▸ hmedia, hsame.symm⟩⟩
      rw [hsame, Function.update_self]
    · rw [hsame, not_valid_dotted hdot] at hvalid
      cases hvalid
  · refine ⟨before, read_eq_ok.mpr ⟨hvalid, ?_, htype, hdigest⟩⟩
    rw [Function.update_of_ne hsame]
    exact hfile

theorem dotted (hash ext : String) : '.' ∈ (hash ++ "." ++ ext).toList := by simp

theorem stored_eq_ok {bytes : Bytes} {asset : AssetRef} {files : List (String × Bytes)} :
    stored digest bytes = .ok (asset, files) ↔ ∃ media ext, mediaType bytes = .ok media ∧
      extension media = .ok ext ∧ asset = ⟨digest bytes, media⟩ ∧
        files = [(digest bytes, bytes), (digest bytes ++ "." ++ ext, bytes)] := by
  unfold stored
  constructor
  · intro h
    obtain ⟨media, hmedia, h⟩ := Outcome.bind_eq_ok.mp h
    obtain ⟨ext, hext, h⟩ := Outcome.bind_eq_ok.mp h
    cases h
    exact ⟨media, ext, hmedia, hext, rfl, rfl⟩
  · rintro ⟨media, ext, hmedia, hext, rfl, rfl⟩
    rw [hmedia, Outcome.bind_ok, hext, Outcome.bind_ok]
    rfl

/-- Assets go on being readable while the files of an upload are written, all or some of them. -/
theorem Holds.writeAll (hdistinct : Distinct digest) {d d' : Directory} {asset other : AssetRef}
    (h : Holds digest d asset) {bytes : Bytes} {files : List (String × Bytes)}
    (hstored : stored digest bytes = .ok (other, files)) {n : ℕ}
    (hwrite : d.writeAll (files.take n) = .ok d') : Holds digest d' asset := by
  obtain ⟨media, ext, hmedia, _, _, rfl⟩ := stored_eq_ok.mp hstored
  have hkeeps : ∀ files : List (String × Bytes), ∀ d : Directory, Holds digest d asset →
      (∀ f ∈ files, f.2 = bytes ∧ (f.1 = digest bytes ∨ '.' ∈ f.1.toList)) →
      ∀ d', d.writeAll files = .ok d' → Holds digest d' asset := by
    intro files
    induction files with
    | nil =>
      intro d hd _ d' hwrite
      cases hwrite
      exact hd
    | cons f rest ih =>
      intro d hd hfiles d' hwrite
      obtain ⟨between, hfirst, hmore⟩ := Outcome.bind_eq_ok.mp hwrite
      obtain ⟨hbytes, hname⟩ := hfiles f (.head _)
      refine ih between ?_ (fun f hf => hfiles f (.tail _ hf)) d' hmore
      exact hd.write hdistinct (hbytes ▸ hmedia) (hbytes ▸ hname) hfirst
  refine hkeeps _ d h (fun f hf => ?_) d' hwrite
  rcases List.mem_cons.mp (List.mem_of_mem_take hf) with rfl | hf
  · exact ⟨rfl, .inl rfl⟩
  · rw [List.mem_singleton.mp hf]
    exact ⟨rfl, .inr (dotted _ _)⟩

/-- An upload whose files are written is readable. -/
theorem holds_stored (hvalid : ∀ bytes, validHash (digest bytes) = true) {d d' : Directory}
    {asset : AssetRef} {bytes : Bytes} {files : List (String × Bytes)}
    (hstored : stored digest bytes = .ok (asset, files)) (hwrite : d.writeAll files = .ok d') :
    Holds digest d' asset := by
  obtain ⟨media, ext, hmedia, _, rfl, rfl⟩ := stored_eq_ok.mp hstored
  obtain ⟨between, hfirst, hmore⟩ := Outcome.bind_eq_ok.mp hwrite
  obtain ⟨last, hsecond, hlast⟩ := Outcome.bind_eq_ok.mp hmore
  cases hlast
  refine ⟨bytes, read_eq_ok.mpr ⟨hvalid bytes, ?_, hmedia, rfl⟩⟩
  have hne : digest bytes ≠ digest bytes ++ "." ++ ext := by
    intro heq
    have hdotted := not_valid_dotted (dotted (digest bytes) ext)
    rw [← heq, hvalid] at hdotted
    cases hdotted
  obtain ⟨_, rfl⟩ := write_eq_ok.mp hfirst
  obtain ⟨_, rfl⟩ := write_eq_ok.mp hsecond
  rw [Function.update_of_ne hne, Function.update_self]

theorem Holds.validateAssets (hdistinct : Distinct digest) {d d' : Directory} {asset : AssetRef}
    (h : Holds digest d asset) {document : DesiredState}
    (hvalidate : validateAssets digest document d = .ok d') : Holds digest d' asset := by
  unfold AssetStore.validateAssets at hvalidate
  split at hvalidate
  · cases hvalidate
    exact h
  · obtain ⟨bytes, hread, hvalidate⟩ := Outcome.bind_eq_ok.mp hvalidate
    obtain ⟨ext, _, hwrite⟩ := Outcome.bind_eq_ok.mp hvalidate
    exact h.write hdistinct (read_eq_ok.mp hread).2.2.1 (.inr (dotted _ _)) hwrite

/-- The logo of a document whose assets were validated is readable. -/
theorem holds_validated (hdistinct : Distinct digest) {d d' : Directory} {document : DesiredState}
    (hvalidate : validateAssets digest document d = .ok d') {asset : AssetRef}
    (hlogo : document.display.splash.logo = some asset) : Holds digest d' asset := by
  have hbefore : Holds digest d asset := by
    unfold AssetStore.validateAssets at hvalidate
    rw [hlogo] at hvalidate
    obtain ⟨bytes, hread, _⟩ := Outcome.bind_eq_ok.mp hvalidate
    exact ⟨bytes, hread⟩
  exact hbefore.validateAssets hdistinct hvalidate

end Readable

/-! ### What a collection keeps -/

theorem mem_memberReferences {members : List (String × Json)} {e : String × Json}
    (he : e ∈ members) {hash : String} (h : hash ∈ references e.2) :
    hash ∈ memberReferences members := by
  induction members with
  | nil => cases he
  | cons first rest ih =>
    obtain ⟨k, x⟩ := first
    rw [memberReferences]
    rcases List.mem_cons.mp he with rfl | he
    · exact List.mem_append_left _ h
    · exact List.mem_append_right _ (ih he)

theorem references_null : references .null = [] := by simp [references]

/-- What a member refers to, the whole does. -/
theorem references_member {j : Json} {k : String} {hash : String}
    (h : hash ∈ references (j.member k)) : hash ∈ references j := by
  cases j with
  | obj members =>
    rw [member] at h
    cases hfind : SortedMap.lookup k members with
    | none =>
      rw [hfind, Option.getD_none, references_null] at h
      cases h
    | some x =>
      rw [hfind, Option.getD_some] at h
      rw [references]
      exact List.mem_append_right _ (mem_memberReferences (SortedMap.mem_of_lookup hfind) h)
  | null | bool | int | float | str | arr =>
    change hash ∈ references .null at h
    rw [references_null] at h
    cases h

theorem references_sha256 {j : Json} {hash : String} (hmember : j.member "sha256" = .str hash)
    (hvalid : validHash hash = true) : hash ∈ references j := by
  cases j with
  | obj members =>
    rw [references, hmember]
    simp [hvalid]
  | null | bool | int | float | str | arr => cases hmember

/-- A document refers to its logo. -/
theorem logo_referenced {document : DesiredState} {asset : AssetRef}
    (hlogo : document.display.splash.logo = some asset) (hvalid : validHash asset.sha256 = true) :
    asset.sha256 ∈ documentReferences document := by
  have hdisplay : (desiredStateJson document).member "display" = displayJson document.display :=
    member_desiredStateJson document .display
  have hsplash : (displayJson document.display).member "splash" =
      splashJson document.display.splash :=
    member_record (by decide) (.head _) document.display
  have hasset : (splashJson document.display.splash).member "logo" = assetRefJson asset := by
    have hlast : (splashJson document.display.splash).member "logo" =
        ofOption assetRefJson document.display.splash.logo :=
      member_record (by decide) (.tail _ (.tail _ (.tail _ (.tail _ (.head _))))) _
    rw [hlast, hlogo]
    rfl
  have hhash : (assetRefJson asset).member "sha256" = .str asset.sha256 :=
    member_record (by decide) (.head _) asset
  refine references_member (k := "display") ?_
  rw [← Value.val_member, hdisplay]
  refine references_member (k := "splash") ?_
  rw [← Value.val_member, hsplash]
  refine references_member (k := "logo") ?_
  rw [← Value.val_member, hasset]
  refine references_sha256 ?_ hvalid
  rw [← Value.val_member, hhash]
  rfl

theorem Holds.collect {digest : Bytes → String} {d : Directory} {asset : AssetRef}
    (h : Holds digest d asset) {keep : String → Bool} (hkeep : keep asset.sha256 = true)
    (gone : String → Bool) : Holds digest (collect keep gone d) asset := by
  obtain ⟨bytes, hread⟩ := h
  obtain ⟨hvalid, hfile, hrest⟩ := read_eq_ok.mp hread
  refine ⟨bytes, read_eq_ok.mpr ⟨hvalid, ?_, hrest⟩⟩
  rw [AssetStore.collect, unused, stem_of_valid hvalid, hkeep]
  simpa using hfile

/-- After a whole collection each file with the name of an asset is kept for a reason. -/
theorem collected {keep : String → Bool} {d : Directory} {name : String} {bytes : Bytes}
    (h : collect keep (fun _ => true) d name = some (.file bytes))
    (hvalid : validHash (stem name) = true) : keep (stem name) = true := by
  unfold AssetStore.collect at h
  by_contra hnot
  split_ifs at h with hunused
  simp only [unused, hvalid, h, Bool.true_and, Bool.and_true, Bool.not_eq_true',
    Bool.not_eq_false] at hunused
  exact hnot hunused

end NdimonR.State.AssetStore
