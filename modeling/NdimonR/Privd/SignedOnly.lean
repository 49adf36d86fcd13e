import Mathlib.Algebra.Order.BigOperators.Group.List
import NdimonR.Library.Outcome
import NdimonR.Privd.Update

/-! What an update asks, stores and installs, against any server. A program of this module is
specified by the steps it makes: a calm one leaves the staged files alone and installs nothing, and
one that stages a package touches the file of that package only. -/

namespace NdimonR.Privd

open NdimonR.Release (Bytes)

/-- An address the update may ask. -/
def Permitted (url : Url) : Prop :=
  safeHttps url = true ∧ url.host ∈ [some "api.github.com", some "github.com",
    some "objects.githubusercontent.com", some "release-assets.githubusercontent.com"]

def Command.isInstall : Command → Bool
  | .install _ => true
  | _ => false

/-- The bounds that hold at every moment. -/
structure Bounded (w : World) : Prop where
  downloads : ∀ d ∈ w.downloads, d.length ≤ 5 ∧ ∀ url ∈ d, Permitted url
  buffer : w.buffer.length ≤ maxApiBytes
  paths : (w.stage.map Prod.fst).Nodup
  files : ∀ f ∈ w.stage, f.2.length ≤ maxPackageBytes
  stored : w.stored ≤ maxTotalBytes
  underflow : w.underflow = false

/-- Nothing has been installed yet. -/
structure Quiet (w : World) : Prop extends Bounded w where
  installs : ∀ c ∈ w.commands, c.isInstall = false
  firmware : w.firmware = none

/-- A step that leaves the staged files and what was fetched. -/
structure Calm (s t : World) : Prop where
  stage : t.stage = s.stage
  fetched : s.fetched ⊆ t.fetched

/-- A step that changes one staged file at most. -/
structure Staging (path : String) (s t : World) : Prop where
  others : ∀ other, other ≠ path → t.file other = s.file other
  fetched : s.fetched ⊆ t.fetched

theorem Calm.file {s t : World} (h : Calm s t) (path : String) : t.file path = s.file path := by
  rw [World.file, World.file, h.stage]

theorem Calm.staging {s t : World} (h : Calm s t) (path : String) : Staging path s t :=
  ⟨fun other _ => h.file other, h.fetched⟩

/-- A program that makes only calm steps while nothing is installed. -/
abbrev Peaceful {α : Type} (P : World → Prop) (p : Action α) (Q : α → World → Prop) : Prop :=
  Proc.Sound Calm Quiet P p Q

/-- What no step of a program disturbs survives it. -/
theorem sound_frame {α : Type} {S R : World → World → Prop} {K B P : World → Prop} {p : Action α}
    {T : α → World → Prop} (h : Proc.Sound S K B p T) (hR : ∀ s t, S s t → R s t)
    (hP : ∀ s t, S s t → P s → P t) :
    Proc.Sound R K (fun w => P w ∧ B w) p fun a w => P w ∧ T a w := by
  intro w hk hp
  obtain ⟨hr, hk', hq, he⟩ := h w hk hp.2
  have hkept : ∀ t, Relation.ReflTransGen S w t → P t := by
    intro t ht
    induction ht with
    | refl => exact hp.1
    | tail _ hlast ih => exact hP _ _ hlast ih
  exact ⟨Relation.ReflTransGen.mono hR _ _ hr, hk', fun a ha => ⟨hkept _ hr, hq a ha⟩, he⟩

theorem Peaceful.frame {α : Type} {R : World → World → Prop} {P : World → Prop} {p : Action α}
    {Q : α → World → Prop} (h : Peaceful (fun _ => True) p Q) (hR : ∀ s t, Calm s t → R s t)
    (hP : ∀ s t, Calm s t → P s → P t) :
    Proc.Sound R Quiet P p fun a w => P w ∧ Q a w :=
  Proc.Spec.weaken (sound_frame h hR hP) (fun _ _ hp => ⟨hp, trivial⟩) fun _ _ _ hq => hq

/-- Two peaceful programs, where the second one's result does not depend on the first's. -/
theorem Peaceful.bind {α β : Type} {p : Action α} {f : α → Action β} {Q : α → World → Prop}
    {T : β → World → Prop} (hp : Peaceful (fun _ => True) p Q)
    (hf : ∀ a, Peaceful (Q a) (f a) T) : Peaceful (fun _ => True) (p >>= f) T :=
  Proc.Spec.bind hp hf

theorem Peaceful.forget {α : Type} {P : World → Prop} {p : Action α} {Q : α → World → Prop}
    (h : Peaceful (fun _ => True) p Q) : Peaceful P p Q :=
  Proc.Spec.weaken h (fun _ _ _ => trivial) fun _ _ _ hq => hq

theorem peaceful_modify {change : World → World} {P : World → Prop} {Q : Unit → World → Prop}
    (hc : ∀ w, Calm w (change w)) (hk : ∀ w, Quiet w → P w → Quiet (change w))
    (hq : ∀ w, Quiet w → P w → Q () (change w)) : Peaceful P (Proc.modify change) Q :=
  Proc.Spec.modify fun w hw hp => ⟨.single (hc w), hk w hw hp, hq w hw hp⟩

section

variable {α : Type} {R : World → World → Prop} {K P : World → Prop}

/-- The next step, from less than is known. -/
theorem sound_next {β : Type} {B : World → Prop} {p : Action α} {f : α → Action β}
    {Q : α → World → Prop} {T : β → World → Prop} (h : Proc.Sound R K B p Q)
    (hb : ∀ w, P w → B w) (hf : ∀ a, Proc.Sound R K (Q a) (f a) T) :
    Proc.Sound R K P (p >>= f) T :=
  Proc.Spec.bind (Proc.Spec.weaken h (fun _ _ hp => hb _ hp) fun _ _ _ hq => hq) hf

theorem sound_require {c : Prop} [Decidable c] {e : Error} :
    Proc.Sound R K P (Proc.require c e) fun _ w => P w ∧ c :=
  Proc.Spec.require fun _ _ _ _ => trivial

theorem sound_ofExcept {r : Except Error α} :
    Proc.Sound R K P (Proc.ofExcept r) fun a w => P w ∧ r = .ok a :=
  Proc.Spec.ofExcept (fun _ _ hr _ hp => ⟨hp, hr⟩) fun _ _ _ _ _ => trivial

theorem sound_read {view : World → α} :
    Proc.Sound R K P (Proc.read view : Action α) fun a w => P w ∧ view w = a :=
  Proc.Spec.read fun _ _ hp => ⟨hp, rfl⟩

theorem sound_minus {a b : ℕ} (h : b ≤ a) :
    Proc.Sound R K P (Env.minus a b) fun n w => P w ∧ n = a - b := by
  rw [Env.minus, if_pos h]
  exact Proc.Spec.pure fun _ _ hp => ⟨hp, rfl⟩

end

theorem mapError_eq_ok {ε ε' α : Type} {f : ε → ε'} {x : Except ε α} {a : α} :
    x.mapError f = .ok a ↔ x = .ok a := by
  cases x <;> simp [Except.mapError]

theorem elim_eq_ok {ε α : Type} {e : ε} {x : Option α} {a : α} :
    x.elim (.error e) Except.ok = .ok a ↔ x = some a := by
  cases x <;> simp

namespace Env

variable {α : Type} (env : Env)

theorem operation_peaceful {change : World → World} (hc : ∀ w, Calm w (change w))
    (hk : ∀ w, Quiet w → Quiet (change w)) :
    Peaceful (fun _ => True) (env.operation change) fun _ _ => True := by
  refine Proc.Spec.bind (Proc.Spec.read (Q := fun _ _ => True) fun _ _ _ => trivial) fun n => ?_
  refine Proc.Spec.bind (Q := fun _ _ => True) ?_ fun _ => ?_
  · exact peaceful_modify (fun w => ⟨rfl, fun _ h => h⟩)
      (fun w hw _ => { hw with }) fun _ _ _ => trivial
  · cases env.io n with
    | error e => exact Proc.Spec.fail fun _ _ _ => trivial
    | ok u => exact peaceful_modify hc (fun w hw _ => hk w hw) fun _ _ _ => trivial

theorem command_peaceful {c : Command} (h : c.isInstall = false) (path : Option String) :
    Peaceful (fun _ => True) (env.command c path) fun out w =>
      env.run c (path.bind w.file) = .ok out := by
  refine Proc.Spec.bind (Q := fun _ _ => True) ?_ fun _ => ?_
  · refine peaceful_modify (fun w => ⟨rfl, fun _ h => h⟩) (fun w hw _ => ?_) fun _ _ _ => trivial
    refine { hw with installs := fun d hd => ?_ }
    rcases List.mem_cons.mp hd with rfl | hd
    · exact h
    · exact hw.installs d hd
  · refine Proc.Spec.bind (Proc.Spec.read (Q := fun file w => file = path.bind w.file)
      fun _ _ _ => rfl) fun file => ?_
    refine Proc.Spec.weaken sound_ofExcept (fun _ _ h => h) fun out w _ hq => ?_
    rw [← hq.1]
    exact hq.2

/-! ### Requests -/

/-- The request of a download that has asked less than five addresses. -/
theorem send_peaceful {url : Url} (hurl : Permitted url) {room : ℕ} :
    Peaceful (fun w => ∃ d rest, w.downloads = d :: rest ∧ d.length + (room + 1) ≤ 5)
      (env.send url) fun _ w => ∃ d rest, w.downloads = d :: rest ∧ d.length + room ≤ 5 := by
  refine Proc.Spec.bind (Proc.Spec.read (Q := fun _ w => ∃ d rest, w.downloads = d :: rest ∧
    d.length + (room + 1) ≤ 5) fun _ _ h => h) fun n => ?_
  refine Proc.Spec.bind (Q := fun _ w => ∃ d rest, w.downloads = d :: rest ∧ d.length + room ≤ 5)
    ?_ fun _ => ?_
  · refine peaceful_modify (fun w => ⟨rfl, fun _ h => h⟩) (fun w hw hp => ?_) fun w _ hp => ?_
    · obtain ⟨d, rest, hd, hroom⟩ := hp
      refine { hw with downloads := fun e he => ?_ }
      simp only [World.request, hd] at he
      have hown := hw.downloads d (hd ▸ .head _)
      rcases List.mem_cons.mp he with rfl | he
      · refine ⟨by rw [List.length_cons]; omega, fun asked hasked => ?_⟩
        rcases List.mem_cons.mp hasked with rfl | hasked
        · exact hurl
        · exact hown.2 asked hasked
      · exact hw.downloads e (hd ▸ .tail _ he)
    · obtain ⟨d, rest, hd, hroom⟩ := hp
      refine ⟨url :: d, rest, by simp only [World.request, hd], ?_⟩
      rw [List.length_cons]
      omega
  · exact Proc.Spec.weaken sound_ofExcept (fun _ _ h => h) fun _ _ _ hq => hq.1

theorem permitted_of_allowed {api : Bool} {hop : ℕ} {url : Url}
    (h : (if api then hop == 0 && safeHttps url && url.host == some "api.github.com"
      else allowedAssetHost url) = true) : Permitted url := by
  cases api with
  | true =>
    simp only [if_true, Bool.and_eq_true, beq_iff_eq] at h
    exact ⟨h.1.2, h.2 ▸ .head _⟩
  | false =>
    simp only [Bool.false_eq_true, if_false, allowedAssetHost, Bool.and_eq_true] at h
    refine ⟨h.1, ?_⟩
    obtain ⟨host, hmem, heq⟩ := List.any_eq_true.mp h.2
    rw [beq_iff_eq.mp heq]
    exact .tail _ (List.mem_map_of_mem hmem)

theorem responseFrom_peaceful (api : Bool) (limit : ℕ) (hops : List ℕ) (url : Url) :
    Peaceful (fun w => ∃ d rest, w.downloads = d :: rest ∧ d.length + hops.length ≤ 5)
      (env.responseFrom api limit hops url) fun _ _ => True := by
  induction hops generalizing url with
  | nil => exact Proc.Spec.fail fun _ _ _ => trivial
  | cons hop hops ih =>
    refine Proc.Spec.bind sound_require fun _ => ?_
    refine Proc.Spec.assume (fun _ _ hp => hp.2) fun hallowed => ?_
    refine Proc.Spec.bind (Proc.Spec.weaken (env.send_peaceful (permitted_of_allowed hallowed))
      (fun _ _ hp => hp.1) fun _ _ _ hq => hq) fun reply => ?_
    refine Proc.Spec.ite (fun _ => ?_) fun _ => ?_
    · refine Proc.Spec.bind sound_require fun _ => ?_
      refine Proc.Spec.bind sound_ofExcept fun target => ?_
      refine Proc.Spec.bind sound_ofExcept fun next => ?_
      exact Proc.Spec.weaken (ih next) (fun _ _ hp => hp.1.1.1) fun _ _ _ hq => hq
    · refine Proc.Spec.bind sound_require fun _ => ?_
      refine Proc.Spec.bind sound_require fun _ => ?_
      exact Proc.Spec.pure fun _ _ _ => trivial

theorem response_peaceful (url : Url) (api : Bool) (limit : ℕ) :
    Peaceful (fun _ => True) (env.response url api limit) fun _ _ => True := by
  refine Proc.Spec.bind (Q := fun _ w => ∃ d rest, w.downloads = d :: rest ∧ d.length + 5 ≤ 5)
    ?_ fun _ => env.responseFrom_peaceful api limit [0, 1, 2, 3, 4] url
  refine peaceful_modify (fun w => ⟨rfl, fun _ h => h⟩) (fun w hw _ => ?_) fun w _ _ =>
    ⟨[], w.downloads, rfl, Nat.le_refl 5⟩
  refine { hw with downloads := fun d hd => ?_ }
  rcases List.mem_cons.mp hd with rfl | hd
  · exact ⟨Nat.zero_le 5, fun _ h => absurd h List.not_mem_nil⟩
  · exact hw.downloads d hd

/-- A body is copied up to its limit and not further, and the room left for it is never
negative. -/
theorem copyFrom_spec {R : World → World → Prop} {K : World → Prop} {I : ℕ → World → Prop}
    {output : Bytes → Action Unit} {limit : ℕ}
    (houtput : ∀ n b, n + b.length ≤ limit →
      Proc.Sound R K (I n) (output b) fun _ => I (n + b.length))
    (reads : List Read) (n : ℕ) (hn : n ≤ limit) :
    Proc.Sound R K (I n) (copyFrom output limit reads n) fun total w =>
      total ≤ limit ∧ I total w := by
  have hminus : ∀ m, m ≤ limit → minus limit m = pure (limit - m) := fun m hm => if_pos hm
  induction reads generalizing n with
  | nil =>
    rw [copyFrom, hminus n hn]
    exact Proc.Spec.pure fun _ _ hi => ⟨hn, hi⟩
  | cons r rest ih =>
    cases r with
    | failed =>
      rw [copyFrom, hminus n hn]
      exact Proc.Spec.fail fun _ _ _ => trivial
    | bytes b =>
      rw [copyFrom, hminus n hn]
      refine Proc.Spec.ite (fun _ => Proc.Spec.pure fun _ _ hi => ⟨hn, hi⟩) fun _ => ?_
      refine Proc.Spec.bind (Proc.Spec.require fun _ _ _ _ => trivial) fun _ => ?_
      refine Proc.Spec.assume (fun _ _ hp => hp.2) fun hfits => ?_
      refine Proc.Spec.bind (Proc.Spec.weaken (houtput n _ hfits) (fun _ _ hp => hp.1)
        fun _ _ _ hq => hq) fun _ => ?_
      exact ih _ hfits

theorem copyBounded_spec {R : World → World → Prop} {K : World → Prop} {I : ℕ → World → Prop}
    {output : Bytes → Action Unit} {limit : ℕ} {reply : HttpResponse}
    (houtput : ∀ n b, n + b.length ≤ limit →
      Proc.Sound R K (I n) (output b) fun _ => I (n + b.length)) :
    Proc.Sound R K (I 0) (copyBounded reply output limit) fun total w =>
      total ≤ limit ∧ I total w := by
  refine Proc.Spec.bind (copyFrom_spec houtput reply.body 0 (Nat.zero_le _)) fun total => ?_
  refine Proc.Spec.bind (Proc.Spec.require fun _ _ _ _ => trivial) fun _ => ?_
  exact Proc.Spec.pure fun _ _ hp => hp.1

theorem downloadBytes_peaceful {url : Url} {api : Bool} {max : ℕ} (hmax : max ≤ maxApiBytes) :
    Peaceful (fun _ => True) (env.downloadBytes url api max) fun _ _ => True := by
  refine (env.response_peaceful url api max).bind fun reply => ?_
  refine Proc.Spec.bind (Q := fun _ w => w.buffer.length = 0) ?_ fun _ => ?_
  · exact peaceful_modify (fun w => ⟨rfl, fun _ h => h⟩)
      (fun w hw _ => { hw with buffer := Nat.zero_le _ }) fun _ _ _ => rfl
  · refine Proc.Spec.bind (copyBounded_spec (I := fun n w => w.buffer.length = n)
      fun n b hb => ?_) fun _ => Proc.Spec.read fun _ _ _ => trivial
    refine peaceful_modify (fun w => ⟨rfl, fun _ h => h⟩) (fun w hw hp => ?_) fun w _ hp => ?_
    · refine { hw with buffer := ?_ }
      rw [List.length_append, hp]
      omega
    · rw [List.length_append, hp]

end Env

/-! ### The signed list -/

namespace Update

variable (u : Update)

/-- The list of this release that some trusted key has signed, as it was fetched. -/
def Authentic (w : World) (manifest : Release.Manifest) : Prop :=
  ∃ sums signature text s trusted key, ("SHA256SUMS", sums) ∈ w.fetched ∧
    ("SHA256SUMS.minisig", signature) ∈ w.fetched ∧ Release.fromUtf8 signature = some text ∧
    u.env.crypto.decode text = some s ∧ trusted ∈ u.keys ∧
    u.env.crypto.fromBase64 trusted = some key ∧ u.env.crypto.verify key sums s = .ok () ∧
    u.env.crypto.trustedComment s =
      "product:ndimon-r\tversion:" ++ u.version.val ++ "\tfile:SHA256SUMS" ∧
    Release.Manifest.parse sums = .ok manifest

theorem verifyKeys_ok {crypto : Release.Crypto} {bytes : Bytes} {s : crypto.Signature}
    {keys : List String} {matching : Bool}
    (h : Release.verifyKeys crypto bytes s keys matching = .ok ()) :
    ∃ trusted ∈ keys, ∃ key, crypto.fromBase64 trusted = some key ∧
      crypto.verify key bytes s = .ok () := by
  induction keys generalizing matching with
  | nil => cases h
  | cons k rest ih =>
    rw [Release.verifyKeys] at h
    cases hkey : crypto.fromBase64 k with
    | none =>
      rw [hkey] at h
      cases h
    | some key =>
      simp only [hkey] at h
      cases hverify : crypto.verify key bytes s with
      | ok v => exact ⟨k, .head _, key, hkey, hverify⟩
      | error e =>
        simp only [hverify] at h
        have hrest : ∃ m, Release.verifyKeys crypto bytes s rest m = .ok () := by
          cases e with
          | unexpectedKeyId => exact ⟨_, h⟩
          | other => exact ⟨_, h⟩
        obtain ⟨m, hm⟩ := hrest
        obtain ⟨trusted, hmem, hfound⟩ := ih hm
        exact ⟨trusted, .tail _ hmem, hfound⟩

theorem checkComment_ok {comment version : String}
    (h : Release.checkComment comment version = .ok ()) :
    comment = "product:ndimon-r\tversion:" ++ version ++ "\tfile:SHA256SUMS" := by
  unfold Release.checkComment at h
  split at h
  · rename_i p v f hsplit
    split_ifs at h with hp hv hf
    have hjoin : ['\t'].intercalate ((Text.split '\t' comment).map String.toList) =
        comment.toList := by
      rw [Text.split, List.map_map]
      have hid : String.toList ∘ String.ofList = id := by
        funext l
        simp
      rw [hid, List.map_id]
      exact List.intercalate_splitOn '\t'
    have hversion : v = "version:" ++ version := not_not.mp hv
    rw [hsplit, not_not.mp hp, hversion, not_not.mp hf] at hjoin
    rw [← String.toList_inj, ← hjoin]
    simp [List.intercalate]
  · cases h

theorem progress_peaceful (stage : String) (file : Option String) :
    Peaceful (fun _ => True) (u.progress stage file) fun _ _ => True :=
  u.env.operation_peaceful (fun _ => ⟨rfl, fun _ h => h⟩) fun _ hw => { hw with }

theorem fetch_peaceful {assets : SortedMap String Asset} {name : String} {max : ℕ}
    (hmax : max ≤ maxApiBytes) :
    Peaceful (fun _ => True) (u.fetch assets name max)
      fun bytes w => (name, bytes) ∈ w.fetched := by
  refine Peaceful.bind sound_ofExcept fun asset => ?_
  refine Proc.Spec.bind sound_require fun _ => ?_
  refine Proc.Spec.bind sound_ofExcept fun url => ?_
  refine Proc.Spec.bind (u.env.downloadBytes_peaceful hmax).forget fun bytes => ?_
  refine Proc.Spec.bind (Q := fun _ w => (name, bytes) ∈ w.fetched) ?_ fun _ =>
    Proc.Spec.pure fun _ _ h => h
  exact peaceful_modify (fun w => ⟨rfl, fun _ h => .tail _ h⟩) (fun w hw _ => { hw with })
    fun _ _ _ => .head _

theorem verifiedManifest_peaceful {assets : SortedMap String Asset} :
    Peaceful (fun _ => True) (u.verifiedManifest assets) fun manifest w =>
      u.Authentic w manifest := by
  refine Peaceful.bind (u.fetch_peaceful (Nat.le_refl _)) fun sums => ?_
  refine Proc.Spec.bind ((u.fetch_peaceful (by decide)).frame (fun _ _ h => h)
    (P := fun w => ("SHA256SUMS", sums) ∈ w.fetched) fun _ _ h hp => h.fetched hp)
    fun signature => ?_
  refine Proc.Spec.bind sound_ofExcept fun text => ?_
  refine Proc.Spec.weaken sound_ofExcept (fun _ _ h => h) fun manifest w _ hq => ?_
  obtain ⟨⟨⟨hsums, hsignature⟩, htext⟩, hverified⟩ := hq
  have htext := elim_eq_ok.mp htext
  have hverified := mapError_eq_ok.mp hverified
  unfold Release.verifyManifest at hverified
  split_ifs at hverified
  split at hverified
  · cases hverified
  · rename_i s hdecode
    obtain ⟨_, hkeys, hverified⟩ := Outcome.bind_eq_ok.mp hverified
    obtain ⟨_, hcomment, hverified⟩ := Outcome.bind_eq_ok.mp hverified
    obtain ⟨_, _, hparse⟩ := Outcome.bind_eq_ok.mp hverified
    obtain ⟨trusted, hmem, key, hkey, hsigned⟩ := verifyKeys_ok hkeys
    exact ⟨sums, signature, text, s, trusted, key, hsums, hsignature, htext, hdecode, hmem, hkey,
      hsigned, checkComment_ok hcomment, hparse⟩

theorem refuseDowngrade_peaceful (current : ReleaseVersion) :
    Peaceful (fun _ => True) (u.refuseDowngrade current) fun _ _ => True := by
  refine Proc.Spec.ite (fun _ => Proc.Spec.pure fun _ _ _ => trivial) fun _ => ?_
  refine Proc.Spec.bind (Proc.Spec.attempt (u.env.command_peaceful rfl none)) fun answer => ?_
  refine Proc.Spec.bind sound_ofExcept fun older => ?_
  exact Proc.Spec.weaken sound_require (fun _ _ h => h) fun _ _ _ _ => trivial

theorem installedPackageVersion_peaceful (package : String) :
    Peaceful (fun _ => True) (u.installedPackageVersion package) fun _ _ => True := by
  refine Proc.Spec.bind (Proc.Spec.attempt (u.env.command_peaceful rfl none)) fun answer => ?_
  exact Proc.Spec.weaken sound_ofExcept (fun _ _ h => h) fun _ _ _ _ => trivial

theorem architecture_peaceful : Peaceful (fun _ => True) u.architecture fun _ _ => True := by
  refine Proc.Spec.bind (u.env.command_peaceful rfl none) fun out => ?_
  refine Proc.Spec.bind sound_require fun _ => ?_
  exact Proc.Spec.pure fun _ _ _ => trivial

/-- What the package in a staged file says of itself. -/
def Named (w : World) (path arch package : String) : Prop :=
  ∃ name version architecture,
    u.env.run (.field path "Package") (w.file path) = .ok name ∧ Text.trim name = package ∧
    u.env.run (.field path "Version") (w.file path) = .ok version ∧
    Text.trim version = u.version.val ∧
    u.env.run (.field path "Architecture") (w.file path) = .ok architecture ∧
    (Text.trim architecture = arch ∨ Text.trim architecture = "all") ∧
    package ∈ requiredPackages

theorem packageMetadata_peaceful (path arch : String) :
    Peaceful (fun _ => True) (u.packageMetadata path arch) fun package w =>
      u.Named w path arch package := by
  have hfield : ∀ field, Peaceful (fun _ => True) (u.env.command (.field path field) (some path))
      fun out w => u.env.run (.field path field) (w.file path) = .ok out :=
    fun field => u.env.command_peaceful rfl (some path)
  have hkeep : ∀ field out s t, Calm s t → u.env.run (.field path field) (s.file path) = .ok out →
      u.env.run (.field path field) (t.file path) = .ok out := by
    intro field out s t hcalm hrun
    rwa [hcalm.file]
  refine Peaceful.bind (hfield "Package") fun name => ?_
  refine Proc.Spec.bind ((hfield "Version").frame (fun _ _ h => h) (hkeep "Package" name))
    fun version => ?_
  refine Proc.Spec.bind ((hfield "Architecture").frame (fun _ _ h => h)
    (P := fun w => u.env.run (.field path "Package") (w.file path) = .ok name ∧
      u.env.run (.field path "Version") (w.file path) = .ok version)
    fun s t h hp => ⟨hkeep _ _ s t h hp.1, hkeep _ _ s t h hp.2⟩) fun architecture => ?_
  refine Proc.Spec.bind sound_require fun _ => Proc.Spec.pure fun w _ hp => ?_
  obtain ⟨⟨⟨hname, hversion⟩, harch⟩, hrequired, hsame, hfits⟩ := hp
  exact ⟨name, version, architecture, hname, rfl, hversion, hsame, harch, hfits,
    List.contains_iff_mem.mp hrequired⟩

/-! ### Staging -/

/-- So much of a package has been written, and no more than that beyond what was stored before. -/
def Filled (path : String) (total n : ℕ) (w : World) : Prop :=
  (∀ f ∈ w.stage, f.1 = path → f.2.length ≤ n) ∧ w.stored ≤ total + n

theorem Filled.calm {path : String} {total n : ℕ} {s t : World} (h : Calm s t)
    (hf : Filled path total n s) : Filled path total n t := by
  obtain ⟨hfiles, hstored⟩ := hf
  refine ⟨?_, ?_⟩
  · rw [h.stage]
    exact hfiles
  · rw [World.stored, h.stage]
    exact hstored

theorem keys_append (path : String) (b : Bytes) (w : World) :
    (w.append path b).stage.map Prod.fst = w.stage.map Prod.fst := by
  rw [World.append, List.map_map]
  refine List.map_congr_left fun f _ => ?_
  rw [Function.comp_apply]
  split <;> rfl

theorem file_append {path other : String} (h : other ≠ path) (b : Bytes) (w : World) :
    (w.append path b).file other = w.file other := by
  unfold World.file World.append
  dsimp only
  induction w.stage with
  | nil => rfl
  | cons f rest ih =>
    by_cases hf : f.1 = path
    · rw [List.map_cons, if_pos hf, List.find?_cons_of_neg, List.find?_cons_of_neg, ih]
      · simpa using fun heq : f.1 = other => h (heq ▸ hf)
      · simpa using fun heq : f.1 = other => h (heq ▸ hf)
    · rw [List.map_cons, if_neg hf, List.find?_cons, List.find?_cons]
      split
      · rfl
      · exact ih

/-- Writing to one file stores what is written. -/
theorem stored_append {path : String} {b : Bytes} {w : World}
    (hpaths : (w.stage.map Prod.fst).Nodup) : (w.append path b).stored ≤ w.stored + b.length := by
  unfold World.stored World.append
  dsimp only
  revert hpaths
  induction w.stage with
  | nil => exact fun _ => Nat.zero_le _
  | cons f rest ih =>
    intro hpaths
    rw [List.map_cons, List.nodup_cons] at hpaths
    rw [List.map_cons, List.map_cons, List.sum_cons, List.map_cons, List.sum_cons]
    by_cases hf : f.1 = path
    · have hrest : rest.map (fun g => if g.1 = path then (g.1, g.2 ++ b) else g) = rest := by
        refine (List.map_congr_left fun g hg => if_neg ?_).trans (List.map_id rest)
        rintro rfl
        exact hpaths.1 (hf ▸ List.mem_map_of_mem hg)
      rw [if_pos hf, hrest, List.length_append]
      omega
    · have hle := ih hpaths.2
      rw [if_neg hf]
      omega

theorem file_create {path other : String} (h : other ≠ path) (w : World) :
    (w.create path).file other = w.file other := by
  unfold World.file World.create
  dsimp only
  rw [List.find?_cons_of_neg (by simpa using h.symm)]
  induction w.stage with
  | nil => rfl
  | cons f rest ih =>
    by_cases hf : f.1 = path
    · rw [List.filter_cons_of_neg (by simpa using hf), List.find?_cons_of_neg, ih]
      simpa using fun heq : f.1 = other => h (heq ▸ hf)
    · rw [List.filter_cons_of_pos (by simpa using hf), List.find?_cons, List.find?_cons]
      split
      · rfl
      · exact ih

theorem create_spec (path : String) {total : ℕ} :
    Proc.Sound (Staging path) Quiet (fun w => w.stored ≤ total)
      (u.env.operation (World.create path)) fun _ => Filled path total 0 := by
  refine Proc.Spec.bind (Proc.Spec.read (Q := fun _ w => w.stored ≤ total) fun _ _ h => h)
    fun n => ?_
  refine Proc.Spec.bind (Q := fun _ w => w.stored ≤ total) ?_ fun _ => ?_
  · exact Proc.Spec.modify fun w hw hp =>
      ⟨.single ⟨fun _ _ => rfl, fun _ h => h⟩, { hw with }, hp⟩
  · cases u.env.io n with
    | error e => exact Proc.Spec.fail fun _ _ _ => trivial
    | ok _ =>
      refine Proc.Spec.modify fun w hw hp => ?_
      have hsub : (w.stage.filter fun f => f.1 ≠ path).Sublist w.stage := List.filter_sublist
      have hstored : (w.create path).stored ≤ w.stored := by
        simpa [World.stored, World.create] using (hsub.map fun f => f.2.length).sum_le_sum
          fun _ _ => Nat.zero_le _
      refine ⟨.single ⟨fun _ h => file_create h w, fun _ h => h⟩, ?_, ?_, hstored.trans hp⟩
      · refine { hw with paths := ?_, files := fun f hf => ?_, stored := hstored.trans hw.stored }
        · refine List.nodup_cons.mpr ⟨fun hmem => ?_, hw.paths.sublist (hsub.map _)⟩
          obtain ⟨f, hf, rfl⟩ := List.mem_map.mp hmem
          simpa using (List.mem_filter.mp hf).2
        · rcases List.mem_cons.mp hf with rfl | hf
          · exact Nat.zero_le _
          · exact hw.files f (hsub.subset hf)
      · intro f hf heq
        rcases List.mem_cons.mp hf with rfl | hf
        · exact Nat.le_refl _
        · exact absurd heq (by simpa using (List.mem_filter.mp hf).2)

theorem append_filled {path : String} {b : Bytes} {w : World} {total n : ℕ} (hw : Bounded w)
    (hf : Filled path total n w) : Filled path total (n + b.length) (w.append path b) := by
  refine ⟨fun f hmem heq => ?_, ?_⟩
  · obtain ⟨g, hg, rfl⟩ := List.mem_map.mp hmem
    by_cases hpath : g.1 = path
    · rw [if_pos hpath, List.length_append]
      exact Nat.add_le_add_right (hf.1 g hg hpath) _
    · rw [if_neg hpath] at heq
      exact absurd heq hpath
  · have hle : (w.append path b).stored ≤ w.stored + b.length := stored_append hw.paths
    have hstored := hf.2
    omega

theorem append_quiet {path : String} {b : Bytes} {w : World} {total n : ℕ} (hw : Quiet w)
    (hf : Filled path total n w)
    (hfits : n + b.length ≤ min maxPackageBytes (maxTotalBytes - total))
    (htotal : total ≤ maxTotalBytes) : Quiet (w.append path b) := by
  have hfilled := append_filled (b := b) hw.toBounded hf
  refine { hw with paths := ?_, files := fun f hmem => ?_, stored := ?_ }
  · rw [keys_append]
    exact hw.paths
  · by_cases hpath : f.1 = path
    · exact (hfilled.1 f hmem hpath).trans (hfits.trans (Nat.min_le_left _ _))
    · obtain ⟨g, hg, rfl⟩ := List.mem_map.mp hmem
      by_cases hsame : g.1 = path
      · rw [if_pos hsame] at hpath
        exact absurd hsame hpath
      · rw [if_neg hsame]
        exact hw.files g hg
  · have hle := hfilled.2
    have hroom := hfits.trans (Nat.min_le_right _ _)
    omega

theorem append_staging (path : String) (b : Bytes) (w : World) :
    Staging path w (w.append path b) :=
  ⟨fun _ h => file_append h b w, fun _ h => h⟩

theorem write_spec {path : String} {b : Bytes} {total n : ℕ}
    (hfits : n + b.length ≤ min maxPackageBytes (maxTotalBytes - total))
    (htotal : total ≤ maxTotalBytes) :
    Proc.Sound (Staging path) Quiet (Filled path total n) (u.env.write path b)
      fun _ => Filled path total (n + b.length) := by
  refine Proc.Spec.bind (Proc.Spec.read (Q := fun _ => Filled path total n) fun _ _ h => h)
    fun m => ?_
  refine Proc.Spec.bind (Q := fun _ => Filled path total n) ?_ fun _ => ?_
  · exact Proc.Spec.modify fun w hw hp =>
      ⟨.single ⟨fun _ _ => rfl, fun _ h => h⟩, { hw with }, hp⟩
  · cases u.env.io m with
    | ok _ =>
      exact Proc.Spec.modify fun w hw hp => ⟨.single (append_staging path b w),
        append_quiet hw hp hfits htotal, append_filled hw.toBounded hp⟩
    | error e =>
      have hpart : n + (b.take e.2).length ≤ min maxPackageBytes (maxTotalBytes - total) :=
        (Nat.add_le_add_left (List.length_take_le' _ _) n).trans hfits
      refine Proc.Spec.bind (Q := fun _ _ => True) ?_ fun _ => Proc.Spec.fail fun _ _ _ => trivial
      exact Proc.Spec.modify fun w hw hp => ⟨.single (append_staging path _ w),
        append_quiet hw hp hpart htotal, trivial⟩

/-- The staged file has the digest that the list gives its name. -/
def Verified (w : World) (manifest : Release.Manifest) (name : String) : Prop :=
  ∃ bytes, w.file (u.path name) = some bytes ∧
    manifest.entries.get? name = some (u.env.crypto.sha256 bytes)

structure Staged (w : World) (manifest : Release.Manifest) (arch name package : String) : Prop where
  verified : u.Verified w manifest name
  named : u.Named w (u.path name) arch package

theorem packageNames_nodup {manifest : Release.Manifest} {arch distribution : String}
    {names : List String} (h : packageNames manifest arch distribution = .ok names) :
    names.Nodup := by
  unfold packageNames at h
  dsimp only at h
  split_ifs at h
  cases h
  exact manifest.entries.keys_nodup.filter _

variable {u}

theorem Verified.same {s t : World} {manifest : Release.Manifest} {name : String}
    (h : u.Verified s manifest name) (hfile : t.file (u.path name) = s.file (u.path name)) :
    u.Verified t manifest name := by
  unfold Verified
  rw [hfile]
  exact h

theorem Staged.same {s t : World} {manifest : Release.Manifest} {arch name package : String}
    (h : u.Staged s manifest arch name package)
    (hfile : t.file (u.path name) = s.file (u.path name)) :
    u.Staged t manifest arch name package := by
  refine ⟨h.verified.same hfile, ?_⟩
  unfold Named
  rw [hfile]
  exact h.named

theorem Authentic.fetched {s t : World} {manifest : Release.Manifest}
    (h : u.Authentic s manifest) (hsub : s.fetched ⊆ t.fetched) : u.Authentic t manifest := by
  obtain ⟨sums, signature, text, sig, trusted, key, hsums, hsignature, hrest⟩ := h
  exact ⟨sums, signature, text, sig, trusted, key, hsub hsums, hsub hsignature, hrest⟩

theorem verifyFile_ok {crypto : Release.Crypto} {manifest : Release.Manifest} {file : Option Bytes}
    {name : String} (h : manifest.verifyFile crypto file name = .ok ()) :
    ∃ bytes, file = some bytes ∧ manifest.entries.get? name = some (crypto.sha256 bytes) := by
  unfold Release.Manifest.verifyFile at h
  split at h
  · cases h
  · cases h
  · rename_i expected bytes hentry
    split_ifs at h with hsame
    exact ⟨bytes, rfl, hsame ▸ hentry⟩

variable (u)

theorem stagePackage_spec {manifest : Release.Manifest} {assets : SortedMap String Asset}
    {arch name : String} {total : ℕ} {packages : List String} (htotal : total ≤ maxTotalBytes) :
    Proc.Sound (Staging (u.path name)) Quiet (fun w => w.stored ≤ total)
      (u.stagePackage manifest assets arch name total packages) fun r w =>
        r.1 ≤ maxTotalBytes ∧ w.stored ≤ r.1 ∧ u.Staged w manifest arch name r.2 ∧
          r.2 ∉ packages := by
  have hcalm : ∀ s t, Calm s t → Staging (u.path name) s t := fun _ _ h => h.staging _
  refine Proc.Spec.bind ((u.progress_peaceful _ _).frame hcalm
    (P := fun w => w.stored ≤ total) fun s t h hp => ?_) fun _ => ?_
  · rw [World.stored, h.stage]
    exact hp
  refine Proc.Spec.bind sound_ofExcept fun asset => ?_
  refine Proc.Spec.bind sound_require fun _ => ?_
  refine sound_next (u.create_spec (u.path name)) (fun _ hp => hp.1.1.1) fun _ => ?_
  refine Proc.Spec.bind (sound_minus htotal) fun left => ?_
  refine Proc.Spec.assume (fun _ _ hp => hp.2) fun hleft => ?_
  subst hleft
  refine Proc.Spec.bind sound_ofExcept fun url => ?_
  refine sound_next ((u.env.response_peaceful _ _ _).frame hcalm
    (P := Filled (u.path name) total 0) fun s t h hp => hp.calm h) (fun _ hp => hp.1.1)
    fun reply => ?_
  refine sound_next (Env.copyBounded_spec (I := Filled (u.path name) total)
    fun n b hfits => u.write_spec hfits htotal) (fun _ hp => hp.1) fun count => ?_
  refine Proc.Spec.assume (fun _ _ hp => hp.1) fun hcount => ?_
  have hroom : total + count ≤ maxTotalBytes := by omega
  -- from here on the bytes stored stay the same
  have hstored : ∀ s t, Calm s t → s.stored ≤ total + count → t.stored ≤ total + count := by
    intro s t h hp
    rwa [World.stored, h.stage]
  refine sound_next ((u.env.operation_peaceful (fun _ => ⟨rfl, fun _ h => h⟩) fun _ hw => hw).frame
    hcalm hstored) (fun _ hp => hp.2.2) fun _ => ?_
  refine sound_next ((u.progress_peaceful _ _).frame hcalm hstored) (fun _ hp => hp.1) fun _ => ?_
  refine Proc.Spec.bind sound_read fun file => ?_
  refine Proc.Spec.bind sound_ofExcept fun _ => ?_
  have hkeep : ∀ s t, Calm s t → s.stored ≤ total + count ∧ u.Verified s manifest name →
      t.stored ≤ total + count ∧ u.Verified t manifest name :=
    fun s t h hp => ⟨hstored s t h hp.1, hp.2.same (h.file _)⟩
  refine sound_next ((u.packageMetadata_peaceful (u.path name) arch).frame hcalm hkeep)
    (fun w hp => ?_) fun package => ?_
  · obtain ⟨⟨⟨hbytes, _⟩, hfile⟩, hverified⟩ := hp
    subst hfile
    exact ⟨hbytes, verifyFile_ok (mapError_eq_ok.mp hverified)⟩
  refine Proc.Spec.bind sound_require fun _ => ?_
  refine Proc.Spec.assume (fun _ _ hp => hp.2) fun hfresh => ?_
  have hstay : ∀ s t, Calm s t →
      s.stored ≤ total + count ∧ u.Staged s manifest arch name package →
      t.stored ≤ total + count ∧ u.Staged t manifest arch name package :=
    fun s t h hp => ⟨hstored s t h hp.1, hp.2.same (h.file _)⟩
  refine sound_next ((u.installedPackageVersion_peaceful package).frame hcalm hstay)
    (fun w hp => ⟨hp.1.1.1, hp.1.1.2, hp.1.2⟩) fun current => ?_
  cases current with
  | none => exact Proc.Spec.pure fun w _ hp => ⟨hroom, hp.1.1, hp.1.2, hfresh⟩
  | some current =>
    refine sound_next ((u.refuseDowngrade_peaceful current).frame hcalm hstay)
      (fun _ hp => hp.1) fun _ => ?_
    exact Proc.Spec.pure fun w _ hp => ⟨hroom, hp.1.1, hp.1.2, hfresh⟩

theorem path_inj {a b : String} (h : u.path a = u.path b) : a = b := by
  have hlist := congrArg String.toList h
  simp only [path, String.toList_append] at hlist
  exact String.toList_inj.mp (List.append_cancel_left hlist)

/-- Every package that has been staged stays as it was verified while the others are. -/
theorem stagePackages_spec {manifest : Release.Manifest} {assets : SortedMap String Asset}
    {arch : String} (names : List String) (total : ℕ) (packages : List String)
    (done : List (String × String)) (htotal : total ≤ maxTotalBytes)
    (hnames : (done.map Prod.fst ++ names).Nodup) (hpackages : packages.Nodup) :
    Proc.Sound (fun _ _ => True) Quiet
      (fun w => (u.Authentic w manifest ∧ ∀ e ∈ done, u.Staged w manifest arch e.1 e.2) ∧
        w.stored ≤ total)
      (u.stagePackages manifest assets arch names total packages) fun result w =>
        u.Authentic w manifest ∧ ∃ more : List (String × String), more.map Prod.fst = names ∧
          result = (more.map Prod.snd).reverse ++ packages ∧ result.Nodup ∧
            ∀ e ∈ done ++ more, u.Staged w manifest arch e.1 e.2 := by
  induction names generalizing total packages done with
  | nil =>
    refine Proc.Spec.pure fun w _ hp => ⟨hp.1.1, [], rfl, rfl, hpackages, ?_⟩
    rw [List.append_nil]
    exact hp.1.2
  | cons name names ih =>
    have hfresh : ∀ e ∈ done, u.path e.1 ≠ u.path name := by
      intro e he heq
      refine (List.nodup_append.mp hnames).2.2 e.1 (List.mem_map_of_mem he) name (.head _) ?_
      exact u.path_inj heq
    refine Proc.Spec.bind (sound_frame (u.stagePackage_spec htotal) (fun _ _ _ => trivial)
      fun s t h hp => ?_) fun r => ?_
    · refine ⟨hp.1.fetched h.fetched, fun e he => (hp.2 e he).same ?_⟩
      exact h.others _ (hfresh e he)
    · obtain ⟨total', package⟩ := r
      refine Proc.Spec.assume (fun _ _ hp => hp.2.1) fun htotal' => ?_
      refine Proc.Spec.assume (fun _ _ hp => hp.2.2.2.2) fun hnew => ?_
      refine Proc.Spec.weaken (ih total' (package :: packages) (done ++ [(name, package)]) htotal'
        ?_ (List.nodup_cons.mpr ⟨hnew, hpackages⟩)) (fun w _ hp => ?_) fun result w _ hq => ?_
      · rw [List.map_append, List.append_assoc]
        exact hnames
      · obtain ⟨⟨hauthentic, hdone⟩, _, hstored, hstaged, _⟩ := hp
        refine ⟨⟨hauthentic, fun e he => ?_⟩, hstored⟩
        rcases List.mem_append.mp he with he | he
        · exact hdone e he
        · rw [List.mem_singleton.mp he]
          exact hstaged
      · obtain ⟨hauthentic, more, hmore, rfl, hdistinct, hall⟩ := hq
        refine ⟨hauthentic, (name, package) :: more, ?_, ?_, hdistinct, ?_⟩
        · rw [List.map_cons, hmore]
        · simp
        · rwa [List.append_assoc] at hall

/-! ### The update -/

/-- What is true of files before dpkg installs them: a signed list of this release gives the digest
of each, and they are one package of each required name, of this version, for this device. -/
def Vetted (w : World) (paths : List String) : Prop :=
  ∃ (manifest : Release.Manifest) (arch : String) (packages : List (String × String)),
    u.Authentic w manifest ∧
    paths = packages.map (fun e => u.path e.1) ∧
    (packages.map Prod.snd).Perm requiredPackages ∧
    ∀ e ∈ packages, u.Staged w manifest arch e.1 e.2

/-- The firmware version that a completed update leaves. -/
def noted : Bytes := (u.version.val ++ "\n").toUTF8.data.toList

/-- At every moment of an update its bounds hold; it installs once at most, files that are still as
they were vetted; and it notes the new version only after dpkg has succeeded. -/
structure Safe (w : World) : Prop extends Bounded w where
  installs : (∀ c ∈ w.commands, c.isInstall = false) ∨
    ∃ paths, w.commands.filter Command.isInstall = [.install paths] ∧ u.Vetted w paths
  firmware : ∀ b, w.firmware = some b → b = u.noted ∧
    ∃ paths out, .install paths ∈ w.commands ∧ u.env.run (.install paths) none = .ok out

variable {u}

theorem vetted {manifest : Release.Manifest} {arch : String} {w : World} {result : List String}
    {more : List (String × String)} (hauthentic : u.Authentic w manifest)
    (hresult : result = (more.map Prod.snd).reverse) (hdistinct : result.Nodup)
    (hrequired : ∀ name ∈ requiredPackages, name ∈ result)
    (hstaged : ∀ e ∈ more, u.Staged w manifest arch e.1 e.2) :
    u.Vetted w ((more.map Prod.fst).map u.path) := by
  refine ⟨manifest, arch, more, hauthentic, by rw [List.map_map]; rfl, ?_, hstaged⟩
  refine (List.reverse_perm _).symm.trans (hresult ▸ ?_)
  refine (List.perm_ext_iff_of_nodup hdistinct (by decide)).mpr fun name =>
    ⟨fun hname => ?_, hrequired name⟩
  rw [hresult, List.mem_reverse] at hname
  obtain ⟨e, he, rfl⟩ := List.mem_map.mp hname
  obtain ⟨_, _, _, _, _, _, _, _, _, hfits⟩ := (hstaged e he).named
  exact hfits

theorem Vetted.same {s t : World} {paths : List String} (h : u.Vetted s paths)
    (hstage : t.stage = s.stage) (hfetched : s.fetched ⊆ t.fetched) : u.Vetted t paths := by
  obtain ⟨manifest, arch, packages, hauthentic, hpaths, hperm, hstaged⟩ := h
  refine ⟨manifest, arch, packages, hauthentic.fetched hfetched, hpaths, hperm, fun e he => ?_⟩
  refine (hstaged e he).same ?_
  rw [World.file, World.file, hstage]

theorem Safe.of_quiet {w : World} (h : Quiet w) : u.Safe w where
  toBounded := h.toBounded
  installs := .inl h.installs
  firmware b hb := absurd (h.firmware.symm.trans hb) (by simp)

/-- A part of the update that installs nothing. -/
theorem sound_before {α : Type} {S : World → World → Prop} {P : World → Prop} {p : Action α}
    {Q : α → World → Prop} (h : Proc.Sound S Quiet P p Q) :
    Proc.Sound (fun _ _ => True) u.Safe (fun w => Quiet w ∧ P w) p fun a w => Quiet w ∧ Q a w :=
  Proc.Spec.within h (fun _ _ hp => hp) (fun _ _ _ => trivial) (fun _ hk => .of_quiet hk)
    (fun _ _ hk hq => ⟨hk, hq⟩) fun _ _ _ _ => trivial

/-- dpkg is given the vetted files. -/
theorem install_spec (names : List String) :
    Proc.Sound (fun _ _ => True) u.Safe (fun w => Quiet w ∧ u.Vetted w (names.map u.path))
      (u.env.command (.install (names.map u.path))) fun out w =>
        .install (names.map u.path) ∈ w.commands ∧
          u.env.run (.install (names.map u.path)) none = .ok out := by
  refine Proc.Spec.bind (Q := fun _ w => .install (names.map u.path) ∈ w.commands) ?_ fun _ => ?_
  · refine Proc.Spec.modify fun w _ hp => ⟨.single trivial, ?_, .head _⟩
    refine { hp.1 with installs := .inr ⟨names.map u.path, ?_, ?_⟩, firmware := fun b hb => ?_ }
    · have hnone : w.commands.filter Command.isInstall = [] :=
        List.filter_eq_nil_iff.mpr fun c hc => by simp [hp.1.installs c hc]
      rw [List.filter_cons_of_pos rfl, hnone]
    · exact hp.2.same rfl fun _ h => h
    · exact absurd (hp.1.firmware.symm.trans hb) (by simp)
  · refine Proc.Spec.bind (Proc.Spec.read (Q := fun file w => file = none ∧
      .install (names.map u.path) ∈ w.commands) fun _ _ hp => ⟨rfl, hp⟩) fun file => ?_
    refine Proc.Spec.assume (fun _ _ hp => hp.1) fun hfile => ?_
    subst hfile
    exact Proc.Spec.weaken sound_ofExcept (fun _ _ hp => hp.2) fun _ _ _ hq => hq

/-- What is noted after the installation. -/
theorem Safe.noted {w : World} (h : u.Safe w) (operations : ℕ)
    (progress : List (String × Option String)) (firmware : Option Bytes)
    (hfirmware : ∀ b, firmware = some b → b = u.noted ∧
      ∃ paths out, .install paths ∈ w.commands ∧ u.env.run (.install paths) none = .ok out) :
    u.Safe { w with operations, progress, firmware } := by
  refine { h with installs := h.installs.imp_right ?_, firmware := hfirmware }
  rintro ⟨paths, honly, hvetted⟩
  exact ⟨paths, honly, hvetted.same rfl fun _ h => h⟩

variable (u)

/-- A part of the update before anything is staged. -/
theorem sound_early {α : Type} {P : World → Prop} {p : Action α} {Q : α → World → Prop}
    (h : Peaceful (fun _ => True) p Q) (hP : ∀ s t, Calm s t → P s → P t) :
    Proc.Sound (fun _ _ => True) u.Safe (fun w => Quiet w ∧ w.stage = [] ∧ P w) p fun a w =>
      (Quiet w ∧ w.stage = [] ∧ P w) ∧ Q a w := by
  refine Proc.Spec.weaken (sound_before (h.frame (fun _ _ h => h)
    (P := fun w => w.stage = [] ∧ P w) fun s t hcalm hp => ?_)) (fun _ _ hp => hp)
    fun _ _ _ hq => ⟨⟨hq.1, hq.2.1⟩, hq.2.2⟩
  exact ⟨hcalm.stage.trans hp.1, hP s t hcalm hp.2⟩

/-- The packages of a list, staged and vetted. -/
theorem staged_spec {manifest : Release.Manifest} {assets : SortedMap String Asset} {arch : String}
    {names : List String} (hnames : names.Nodup) :
    Proc.Sound (fun _ _ => True) u.Safe
      (fun w => Quiet w ∧ w.stage = [] ∧ u.Authentic w manifest)
      (u.stagePackages manifest assets arch names 0 []) fun result w =>
        Quiet w ∧ ((∀ name ∈ requiredPackages, name ∈ result) →
          u.Vetted w (names.map u.path)) := by
  refine Proc.Spec.weaken (sound_before (u.stagePackages_spec names 0 [] [] (Nat.zero_le _)
    hnames .nil)) (fun w _ hp => ?_) fun result w _ hq => ?_
  · refine ⟨hp.1, ⟨hp.2.2, fun _ h => absurd h List.not_mem_nil⟩, ?_⟩
    rw [World.stored, hp.2.1]
    exact Nat.le_refl 0
  · obtain ⟨hquiet, hauthentic, more, rfl, hresult, hdistinct, hstaged⟩ := hq
    rw [List.append_nil] at hresult
    exact ⟨hquiet, fun hrequired => vetted hauthentic hresult hdistinct hrequired hstaged⟩

/-- What the update notes once dpkg has succeeded. -/
theorem noted_spec {paths : List String} {out : String} {F G : Option Bytes → Prop}
    (progress : List (String × Option String) → List (String × Option String))
    (firmware : Option Bytes → Option Bytes) (hF : ∀ f, F f → G (firmware f))
    (hfirmware : ∀ w, u.Safe w → ∀ b, firmware w.firmware = some b →
      b = u.noted) :
    Proc.Sound (fun _ _ => True) u.Safe
      (fun w => (.install paths ∈ w.commands ∧ u.env.run (.install paths) none = .ok out) ∧
        F w.firmware)
      (u.env.operation fun w =>
        { w with progress := progress w.progress, firmware := firmware w.firmware })
      fun _ w => (.install paths ∈ w.commands ∧ u.env.run (.install paths) none = .ok out) ∧
        G w.firmware := by
  refine Proc.Spec.bind sound_read fun n => ?_
  refine Proc.Spec.bind (Q := fun _ w => (.install paths ∈ w.commands ∧
    u.env.run (.install paths) none = .ok out) ∧ F w.firmware) ?_ fun _ => ?_
  · exact Proc.Spec.modify fun w hw hp =>
      ⟨.single trivial, hw.noted _ w.progress w.firmware hw.firmware, hp.1⟩
  · cases u.env.io n with
    | error e => exact Proc.Spec.fail fun _ _ _ => trivial
    | ok _ =>
      refine Proc.Spec.modify fun w hw hp => ⟨.single trivial, ?_, hp.1, hF _ hp.2⟩
      exact hw.noted w.operations _ _ fun b hb => ⟨hfirmware w hw b hb, paths, out, hp.1⟩

theorem run_safe : Proc.Sound (fun _ _ => True) u.Safe (fun w => Quiet w ∧ w.stage = [] ∧ True)
    u.run fun _ w => w.firmware = some u.noted := by
  have hearly : ∀ {α : Type} {p : Action α} {Q : α → World → Prop},
      Peaceful (fun _ => True) p Q → _ := fun h => u.sound_early h (P := fun _ => True)
        fun _ _ _ _ => trivial
  refine Proc.Spec.bind (hearly (u.progress_peaceful "checking_version" none)) fun _ => ?_
  refine Proc.Spec.bind sound_ofExcept fun current => ?_
  refine sound_next (hearly (u.refuseDowngrade_peaceful current)) (fun _ hp => hp.1.1) fun _ => ?_
  refine sound_next (hearly u.architecture_peaceful) (fun _ hp => hp.1) fun arch => ?_
  refine Proc.Spec.bind sound_ofExcept fun distribution => ?_
  refine sound_next (hearly (u.progress_peaceful "fetching_manifest" none)) (fun _ hp => hp.1.1)
    fun _ => ?_
  refine Proc.Spec.bind sound_ofExcept fun url => ?_
  refine sound_next (hearly (u.env.downloadBytes_peaceful (Nat.le_refl _))) (fun _ hp => hp.1.1)
    fun bytes => ?_
  refine Proc.Spec.bind sound_ofExcept fun release => ?_
  refine Proc.Spec.bind sound_require fun _ => ?_
  refine Proc.Spec.bind sound_ofExcept fun assets => ?_
  refine sound_next (hearly u.verifiedManifest_peaceful) (fun _ hp => hp.1.1.1.1) fun manifest => ?_
  refine Proc.Spec.bind sound_ofExcept fun names => ?_
  refine Proc.Spec.assume (fun _ _ hp => hp.2) fun hnames => ?_
  have hcalm : ∀ s t, Calm s t → u.Authentic s manifest → u.Authentic t manifest :=
    fun _ _ h hp => hp.fetched h.fetched
  have hdirectory : Peaceful (fun _ => True) (u.env.operation id) fun _ _ => True :=
    u.env.operation_peaceful (fun _ => ⟨rfl, fun _ h => h⟩) fun _ hw => hw
  refine sound_next (u.sound_early hdirectory hcalm)
    (fun _ hp => ⟨hp.1.1.1, hp.1.1.2.1, hp.1.2⟩) fun _ => ?_
  refine sound_next (u.sound_early hdirectory hcalm) (fun _ hp => hp.1) fun _ => ?_
  refine sound_next (u.staged_spec (packageNames_nodup hnames)) (fun _ hp => hp.1)
    fun packages => ?_
  refine Proc.Spec.bind sound_require fun _ => ?_
  refine sound_next (sound_before ((u.progress_peaceful "installing" none).frame
    (fun _ _ h => h) (P := fun w => u.Vetted w (names.map u.path))
      fun s t h hp => hp.same h.stage h.fetched)) (fun _ hp => ⟨hp.1.1, hp.1.2 hp.2⟩) fun _ => ?_
  refine sound_next (u.install_spec names) (fun _ hp => ⟨hp.1, hp.2.1⟩) fun out => ?_
  refine sound_next (u.noted_spec id (fun _ => some u.noted) (F := fun _ => True)
    (G := fun f => f = some u.noted) (fun _ _ => rfl)
    fun w _ b hb => (Option.some.inj hb).symm) (fun _ hp => ⟨hp, trivial⟩) fun _ => ?_
  refine Proc.Spec.bind (u.noted_spec (fun p => ("complete", none) :: p) id
    (F := fun f => f = some u.noted) (G := fun f => f = some u.noted) (fun _ h => h)
    fun w hw b hb => (hw.firmware b hb).1) fun _ => ?_
  exact Proc.Spec.pure fun _ _ hp => hp.2

end Update

end NdimonR.Privd
