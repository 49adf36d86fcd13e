import NdimonR.Control.SessionsGrounded
import NdimonR.Library.JsonRead

/-! Which passwords the record accepts: an upgrade at a login and a restored backup leave them as
they are, and a password change leaves exactly the new one. -/

namespace NdimonR.Control

open Text

variable {env : Crypto}

/-! ### Hexadecimal -/

theorem hexValue_hexDigit {n : ℕ} (h : n < 16) : hexValue (Json.hexDigit n) = some n := by
  revert n
  decide

theorem hexPairs_digits (l : List UInt8) : hexPairs (l.flatMap fun b =>
    [Json.hexDigit (b.toNat / 16), Json.hexDigit (b.toNat % 16)]) = some l := by
  induction l with
  | nil => rfl
  | cons b rest ih =>
    have hb : b.toNat < 256 := b.toNat_lt
    have hhigh := hexValue_hexDigit (n := b.toNat / 16) (by omega)
    have hlow := hexValue_hexDigit (n := b.toNat % 16) (by omega)
    have hwhole : 16 * (b.toNat / 16) + b.toNat % 16 = b.toNat := by omega
    simp only [List.flatMap_cons, List.cons_append, List.nil_append, hexPairs, hhigh, hlow, ih,
      Option.bind_eq_bind, Option.bind_some, hwhole, UInt8.ofNat_toNat]

theorem hexEncode_injective : Function.Injective hexEncode := by
  intro a b h
  have hlists := String.ofList_injective h
  have hpairs := congrArg hexPairs hlists
  rw [hexPairs_digits, hexPairs_digits] at hpairs
  exact Option.some.inj hpairs

/-! ### What a record accepts -/

def Admits (env : Crypto) (record : Json) (password : String) : Prop :=
  ∃ nonce upgrade, verdict env nonce record password = .ok (true, upgrade)

def Accepts (env : Crypto) (content : List UInt8) (password : String) : Prop :=
  ∃ nonce upgrade, judge env nonce content password = .ok (true, upgrade)

def algorithm (record : Json) : String := (asStr (record.member "algo")).getD "scrypt"

/-- The verifier of each algorithm says yes. -/
def Verifies (env : Crypto) (record : Json) (salt hash password : String) : Prop :=
  (algorithm record = "argon2id" ∧ ∃ phc, asStr (record.member "phc") = some phc ∧
    boundedPhc phc = true ∧ env.verify phc (bytes password) = some true) ∨
  (algorithm record = "scrypt" ∧ len salt = 32 ∧ len hash = 64 ∧
    scryptHash env password salt = .ok hash)

/-- The record that takes the place of one of scrypt. -/
def upgradeOf (env : Crypto) (nonce : List UInt8) (stored : Json) (password : String) : Json :=
  setMember "phc" (.str (env.argon nonce (bytes password)))
    (setMember "algo" (.str "argon2id") stored)

theorem verdict_yes {nonce : List UInt8} {record : Json} {password : String}
    {upgrade : Option Json} (h : verdict env nonce record password = .ok (true, upgrade)) :
    ∃ salt hash, asStr (record.member "salt") = some salt ∧
      asStr (record.member "hash") = some hash ∧ Verifies env record salt hash password ∧
      ∀ next, upgrade = some next →
        algorithm record = "scrypt" ∧ next = upgradeOf env nonce record password := by
  unfold verdict at h
  split at h
  · cases h
  · cases h
  · rename_i salt hash hsalt hhash
    refine ⟨salt, hash, hsalt, hhash, ?_⟩
    dsimp only at h
    split at h
    · rename_i halgo
      split at h
      · cases h
      · rename_i phc hphc
        split at h
        · cases h
        · rename_i hbounded
          split at h
          · cases h
          · rename_i valid hvalid
            cases h
            exact ⟨.inl ⟨halgo, phc, hphc, Bool.eq_true_of_not_eq_false hbounded, hvalid⟩,
              fun _ hnone => (by cases hnone)⟩
    · split at h
      · rename_i halgo
        split at h
        · cases h
        · rename_i hlengths
          split at h
          · cases h
          · rename_i candidate hcandidate
            split at h
            · cases h
            · rename_i hsame
              cases h
              rw [not_or, not_not, not_not] at hlengths
              rw [not_not] at hsame
              subst hsame
              exact ⟨.inr ⟨halgo, hlengths.1, hlengths.2, hcandidate⟩,
                fun next hnext => ⟨halgo, (Option.some.inj hnext).symm⟩⟩
      · cases h

theorem admits_iff {record : Json} {password : String} : Admits env record password ↔
    ∃ salt hash, asStr (record.member "salt") = some salt ∧
      asStr (record.member "hash") = some hash ∧ Verifies env record salt hash password := by
  constructor
  · rintro ⟨nonce, upgrade, h⟩
    obtain ⟨salt, hash, hsalt, hhash, hverifies, _⟩ := verdict_yes h
    exact ⟨salt, hash, hsalt, hhash, hverifies⟩
  · rintro ⟨salt, hash, hsalt, hhash, ⟨halgo, phc, hphc, hbounded, hvalid⟩ |
      ⟨halgo, hsalt32, hhash64, hscrypt⟩⟩
    · rw [algorithm] at halgo
      refine ⟨[], none, ?_⟩
      simp [verdict, hsalt, hhash, halgo, hphc, hbounded, hvalid]
    · rw [algorithm] at halgo
      refine ⟨[], some (upgradeOf env [] record password), ?_⟩
      simp [verdict, hsalt, hhash, halgo, hscrypt, hsalt32, hhash64, upgradeOf]

/-- Only four texts of a record count, the last one for one algorithm. -/
theorem admits_congr {record other : Json} {password : String}
    (hsalt : asStr (record.member "salt") = asStr (other.member "salt"))
    (hhash : asStr (record.member "hash") = asStr (other.member "hash"))
    (halgo : algorithm record = algorithm other)
    (hphc : algorithm other = "argon2id" →
      asStr (record.member "phc") = asStr (other.member "phc")) :
    Admits env record password ↔ Admits env other password := by
  rw [admits_iff, admits_iff, hsalt, hhash]
  unfold Verifies
  rw [halgo]
  by_cases hargon : algorithm other = "argon2id"
  · rw [hphc hargon]
  · simp [hargon]

/-- The hash functions, on the passwords that anyone tries. -/
structure Lawful (env : Crypto) (tried : List String) : Prop where
  scrypt : ∀ p ∈ tried, ∀ q ∈ tried, ∀ salt,
    env.scrypt (bytes p) salt = env.scrypt (bytes q) salt → bytes p = bytes q
  verify : ∀ p ∈ tried, ∀ q ∈ tried, ∀ nonce,
    env.verify (env.argon nonce (bytes p)) (bytes q) = some (decide (bytes p = bytes q))
  bounded : ∀ p ∈ tried, ∀ nonce, boundedPhc (env.argon nonce (bytes p)) = true

variable {tried : List String}

theorem replaced_lookup (key k : String) (value : Json) (members : List (String × Json)) :
    SortedMap.lookup k (replaceMember key value members) =
      if k = key then some value else SortedMap.lookup k members := by
  induction members with
  | nil => simp [replaceMember, SortedMap.lookup, eq_comm]
  | cons e rest ih =>
    unfold replaceMember
    split
    · rename_i he
      by_cases hk : k = key <;> simp [SortedMap.lookup, he, hk]
    · rename_i he
      by_cases hk : k = e.1
      · subst hk
        simp [SortedMap.lookup, he]
      · simp [SortedMap.lookup, hk, ih]

theorem member_setMember (key k : String) (value : Json) (members : List (String × Json)) :
    (setMember key value (.obj members)).member k =
      if k = key then value else (Json.obj members).member k := by
  unfold setMember Json.member
  dsimp only
  rw [replaced_lookup]
  split <;> rfl

theorem exists_obj {record : Json} {key text : String} (h : asStr (record.member key) = some text) :
    ∃ members, record = .obj members := by
  cases record with
  | obj members => exact ⟨members, rfl⟩
  | null | bool | int | float | str | arr => cases h

/-- An argon record accepts the password that it was made for. -/
theorem argon_admits (hlawful : Lawful env tried) {record : Json} {salt hash p q : String}
    {nonce : List UInt8} (hsalt : asStr (record.member "salt") = some salt)
    (hhash : asStr (record.member "hash") = some hash)
    (halgo : asStr (record.member "algo") = some "argon2id")
    (hphc : asStr (record.member "phc") = some (env.argon nonce (bytes p)))
    (hp : p ∈ tried) (hq : q ∈ tried) : Admits env record q ↔ bytes q = bytes p := by
  have hargon : algorithm record = "argon2id" := by
    rw [algorithm, halgo]
    rfl
  rw [admits_iff]
  constructor
  · rintro ⟨_, _, _, _, ⟨_, phc, hphc', _, hvalid⟩ | ⟨hscrypt, _⟩⟩
    · cases hphc.symm.trans hphc'
      rw [hlawful.verify p hp q hq] at hvalid
      exact (of_decide_eq_true (Option.some.inj hvalid)).symm
    · exact absurd (hargon.symm.trans hscrypt) (by decide)
  · intro hsame
    refine ⟨salt, hash, hsalt, hhash, .inl ⟨hargon, _, hphc, hlawful.bounded p hp nonce, ?_⟩⟩
    rw [hlawful.verify p hp q hq, hsame, decide_eq_true rfl]

theorem scryptHash_eq {p q salt hash : String} (hlawful : Lawful env tried) (hp : p ∈ tried)
    (hq : q ∈ tried) (h : scryptHash env p salt = .ok hash) :
    scryptHash env q salt = .ok hash ↔ bytes q = bytes p := by
  unfold scryptHash at *
  split at h
  · rename_i raw hraw
    cases h
    rw [Except.ok.injEq, hexEncode_injective.eq_iff]
    constructor
    · exact fun hsame => hlawful.scrypt q hq p hp raw hsame
    · intro hsame
      rw [hsame]
  · cases h

/-- An upgrade leaves the passwords that are accepted as they are. -/
theorem upgraded_admits (hlawful : Lawful env tried) {record next : Json} {nonce : List UInt8}
    {p q : String} (hyes : verdict env nonce record p = .ok (true, some next)) (hp : p ∈ tried)
    (hq : q ∈ tried) : Admits env next q ↔ Admits env record q := by
  obtain ⟨salt, hash, hsalt, hhash, hverifies, hupgrade⟩ := verdict_yes hyes
  obtain ⟨halgo, rfl⟩ := hupgrade next rfl
  obtain ⟨members, rfl⟩ := exists_obj hsalt
  obtain ⟨hargon, _⟩ | ⟨_, hsalt32, hhash64, hscrypt⟩ := hverifies
  · exact absurd (halgo.symm.trans hargon) (by decide)
  have hset (key : String) (hkey : key ≠ "phc") :
      (upgradeOf env nonce (.obj members) p).member key =
        if key = "algo" then .str "argon2id" else (Json.obj members).member key := by
    unfold upgradeOf
    rw [setMember, member_setMember, if_neg hkey]
    exact member_setMember _ _ _ _
  have hphc : (upgradeOf env nonce (.obj members) p).member "phc" =
      .str (env.argon nonce (bytes p)) := by
    unfold upgradeOf
    rw [setMember, member_setMember, if_pos rfl]
  have hbefore : Admits env (.obj members) q ↔ bytes q = bytes p := by
    rw [admits_iff, ← scryptHash_eq hlawful hp hq hscrypt]
    constructor
    · rintro ⟨salt', hash', hsalt', hhash', ⟨hargon, _⟩ | ⟨_, _, _, hq'⟩⟩
      · exact absurd (halgo.symm.trans hargon) (by decide)
      · cases hsalt.symm.trans hsalt'
        cases hhash.symm.trans hhash'
        exact hq'
    · exact fun hq' => ⟨salt, hash, hsalt, hhash, .inr ⟨halgo, hsalt32, hhash64, hq'⟩⟩
  rw [hbefore]
  apply argon_admits hlawful _ _ _ _ hp hq
  · exact salt
  · exact hash
  · exact nonce
  · rw [hset "salt" (by decide), if_neg (by decide)]
    exact hsalt
  · rw [hset "hash" (by decide), if_neg (by decide)]
    exact hhash
  · rw [hset "algo" (by decide), if_pos rfl]
    rfl
  · rw [hphc]
    rfl

/-- The record of a password accepts that password. -/
theorem new_admits (hlawful : Lawful env tried) {record : Json} {nonce salt : List UInt8}
    {p q : String} (hnew : newRecord env nonce salt p = .ok record) (hp : p ∈ tried)
    (hq : q ∈ tried) : Admits env record q ↔ bytes q = bytes p := by
  unfold newRecord at hnew
  cases hhash : scryptHash env p (hexEncode salt) with
  | error e =>
    rw [hhash] at hnew
    cases hnew
  | ok hash =>
    rw [hhash] at hnew
    cases hnew
    exact argon_admits hlawful rfl rfl rfl rfl hp hq

/-- What a backup takes of a record. -/
theorem exported_members {members : List (String × Json)} {backup : Json}
    (hexport : exportRecord (.obj members) = some backup) :
    ∃ taken, backup = .obj taken ∧
      (SortedMap.lookup "salt" taken) = some ((Json.obj members).member "salt") ∧
      (SortedMap.lookup "hash" taken) = some ((Json.obj members).member "hash") ∧
      (SortedMap.lookup "algo" taken) =
        (if truthy ((Json.obj members).member "algo") then some ((Json.obj members).member "algo")
          else none) ∧
      ((Json.obj members).member "algo" = .str "argon2id" →
        SortedMap.lookup "phc" taken = SortedMap.lookup "phc" members) := by
  unfold exportRecord at hexport
  dsimp only at hexport
  split at hexport
  · cases hexport
  · cases hexport
    refine ⟨_, rfl, by simp [SortedMap.lookup], by simp [SortedMap.lookup], ?_, fun halgo => ?_⟩
    · cases ht : truthy ((Json.obj members).member "algo") with
      | true => simp [SortedMap.lookup]
      | false =>
        have halgo : (Json.obj members).member "algo" ≠ .str "argon2id" := by
          intro halgo
          rw [halgo] at ht
          cases ht
        simp [SortedMap.lookup, halgo]
    · rw [halgo]
      cases hphc : SortedMap.lookup "phc" members <;> simp [SortedMap.lookup, truthy]

/-- What a restore writes of a backup. -/
theorem imported_members {taken : List (String × Json)} {restored : Json} {updated : String}
    (himport : importAuth updated (.obj taken) = .ok restored) :
    ∃ written, restored = .obj written ∧
      restored.member "salt" = (Json.obj taken).member "salt" ∧
      restored.member "hash" = (Json.obj taken).member "hash" ∧
      restored.member "algo" = (Json.obj taken).member "algo" ∧
      ((Json.obj taken).member "algo" = .str "argon2id" →
        restored.member "phc" = (Json.obj taken).member "phc") := by
  unfold importAuth at himport
  dsimp only at himport
  split at himport
  · cases himport
  split at himport
  · cases himport
  split at himport
  · cases himport
  split at himport
  · cases himport
  cases himport
  refine ⟨_, rfl, by simp [Json.member, SortedMap.lookup], by simp [Json.member, SortedMap.lookup],
    ?_, fun halgo => ?_⟩
  · have hnull (hnone : ¬(SortedMap.lookup "algo" taken).isSome = true) :
        (Json.obj taken).member "algo" = .null := by
      rw [Json.member, Option.not_isSome_iff_eq_none.mp hnone]
      rfl
    split_ifs with hsome hargon hargon
    · simp [Json.member, SortedMap.lookup]
    · simp [Json.member, SortedMap.lookup]
    · cases (hnull hsome).symm.trans hargon
    · rw [hnull hsome]
      simp [Json.member, SortedMap.lookup]
  · rw [if_pos halgo]
    split <;> simp [Json.member, SortedMap.lookup]

/-- A backup of a record that works accepts the same passwords. -/
theorem restored_admits {record backup restored : Json} {updated : String}
    (hexport : exportRecord record = some backup)
    (himport : importAuth updated backup = .ok restored) {p : String} (hworks : Admits env record p)
    (q : String) : Admits env restored q ↔ Admits env record q := by
  obtain ⟨salt, hash, hsalt, hhash, hverifies⟩ := admits_iff.mp hworks
  obtain ⟨members, rfl⟩ := exists_obj hsalt
  obtain ⟨taken, rfl, htsalt, hthash, htalgo, htphc⟩ := exported_members hexport
  obtain ⟨written, rfl, hwsalt, hwhash, hwalgo, hwphc⟩ := imported_members himport
  have hknown : algorithm (.obj members) = "argon2id" ∨ algorithm (.obj members) = "scrypt" :=
    hverifies.imp And.left And.left
  have htaken (key : String) : (Json.obj taken).member key =
      (SortedMap.lookup key taken).getD .null := rfl
  have halgo : algorithm (.obj written) = algorithm (.obj members) := by
    unfold algorithm at *
    rw [hwalgo, htaken, htalgo]
    split
    · rfl
    · rename_i hfalsy
      cases hmember : (Json.obj members).member "algo" with
      | str s =>
        rw [hmember] at hknown hfalsy
        have hempty : s = "" := by simpa [truthy] using hfalsy
        subst hempty
        exact absurd hknown (by decide)
      | null | bool | int | float | arr | obj => rfl
  apply admits_congr _ _ halgo
  · intro hargon
    have hmember : (Json.obj members).member "algo" = .str "argon2id" := by
      unfold algorithm at hargon
      cases hmember : (Json.obj members).member "algo" with
      | str s =>
        rw [hmember] at hargon
        exact congrArg Json.str hargon
      | null | bool | int | float | arr | obj =>
        rw [hmember] at hargon
        exact absurd hargon (by simp [asStr])
    have htargon : (Json.obj taken).member "algo" = .str "argon2id" := by
      rw [htaken, htalgo, hmember]
      rfl
    rw [hwphc htargon, htaken, htphc hmember]
    rfl
  · rw [hwsalt, htaken, htsalt]
    rfl
  · rw [hwhash, htaken, hthash]
    rfl

/-! ### The file -/

/-- The JSON library reads the texts of a record that it wrote, and the file is not too large. -/
structure ReadsBack (env : Crypto) (record : Json) (content : List UInt8) : Prop where
  small : content.length ≤ maxAuthBytes
  nonempty : content ≠ []
  reads : ∃ found ∈ env.parse content, ∀ key ∈ ["salt", "hash", "algo", "phc"],
    asStr (found.member key) = asStr (record.member key)

instance (record : Json) (content : List UInt8) : Decidable (ReadsBack env record content) :=
  decidable_of_iff (_ ∧ _ ∧ _) ⟨fun h => ⟨h.1, h.2.1, h.2.2⟩, fun h => ⟨h.1, h.2, h.3⟩⟩

theorem accepts_iff {content : List UInt8} {record : Json} (hsome : content ≠ [])
    (hparse : env.parse content = some record) (password : String) :
    Accepts env content password ↔ Admits env record password := by
  unfold Accepts Admits judge
  simp only [hsome, hparse, ↓reduceIte]

theorem ReadsBack.accepts {record : Json} {content : List UInt8} (h : ReadsBack env record content)
    (password : String) : Accepts env content password ↔ Admits env record password := by
  obtain ⟨found, hparse, htexts⟩ := h.reads
  rw [accepts_iff h.nonempty hparse]
  apply admits_congr (htexts "salt" (by simp)) (htexts "hash" (by simp))
  · rw [algorithm, htexts "algo" (by simp)]
    rfl
  · exact fun _ => htexts "phc" (by simp)

theorem ReadsBack.bytes {record : Json} {content : List UInt8} (h : ReadsBack env record content) :
    (AuthFile.holds content).bytes = .ok content := if_pos h.small

/-- A backup was taken of the content and is restored in its place. -/
def Restored (env : Crypto) (content other : List UInt8) : Prop :=
  ∃ record backup updated restored, content ≠ [] ∧ env.parse content = some record ∧
    exportRecord record = some backup ∧ importAuth updated backup = .ok restored ∧
    ReadsBack env restored other

theorem Restored.accepts {content other : List UInt8} (h : Restored env content other) {p : String}
    (hworks : Accepts env content p) (q : String) :
    Accepts env other q ↔ Accepts env content q := by
  obtain ⟨record, backup, updated, restored, hsome, hparse, hexport, himport, hreads⟩ := h
  rw [hreads.accepts, accepts_iff hsome hparse]
  exact restored_admits hexport himport ((accepts_iff hsome hparse p).mp hworks) q

def Job.Tried (tried : List String) : Job → Prop
  | .changePassword new => new ∈ tried
  | _ => True

/-- The record that is about to be written. -/
def FrontDoor.pendingRecord (s : FrontDoor) : Option Json :=
  match s.gate with
  | some (.writing _ grounds false) => grounds.record
  | _ => none

/-- Passwords are among those, what is written can be read, only backups of the record that is there
are restored, and no write arrives after its request has gone. -/
def Careful (env : Crypto) (tried : List String) (s : FrontDoor) : FrontDoor.Act → Prop
  | .replace file => ∃ content other, s.file = .holds content ∧ file = .holds other ∧
      Restored env content other
  | .enter job password => password ∈ tried ∧ job.Tried tried
  | .land => ∀ record ∈ s.pendingRecord, ∀ content ∈ privdWrite env record,
      ReadsBack env record content
  | _ => True

/-- The password of the last change whose record has been written. -/
def lastSet : List Deed → Option String
  | [] => none
  | .landed (.set _ new _) :: _ => some new
  | _ :: rest => lastSet rest

/-- What the file should accept. -/
def Valid (env : Crypto) (first : List UInt8) (past : List Deed) (password : String) : Prop :=
  match lastSet past with
  | some new => bytes password = bytes new
  | none => Accepts env first password

variable {first : List UInt8} {past : List Deed}

/-- The grounds of a write that has not landed make a record with the right passwords. -/
def Grounds.Keeps (env : Crypto) (tried : List String) (valid : String → Prop) : Grounds → Prop
  | .verified .. => True
  | .upgraded _ _ record => ∀ q ∈ tried, Admits env record q ↔ valid q
  | .set _ new record => new ∈ tried ∧ ∀ q ∈ tried, Admits env record q ↔ bytes q = bytes new

def Task.Keeps (env : Crypto) (tried : List String) (valid : String → Prop) : Task → Prop
  | .entered job password => password ∈ tried ∧ job.Tried tried
  | .checked job password content upgrade =>
    password ∈ tried ∧ job.Tried tried ∧ (∀ q ∈ tried, Accepts env content q ↔ valid q) ∧
      ∃ nonce, judge env nonce content password = .ok (true, upgrade)
  | .writing job grounds false => job.Tried tried ∧ grounds.Keeps env tried valid
  | .writing job _ true | .written job _ | .verified job _ => job.Tried tried
  | .cleared _ => True

structure FrontDoor.Kept (env : Crypto) (tried : List String) (first : List UInt8) (s : FrontDoor) :
    Prop where
  file : ∃ content, s.file.bytes = .ok content ∧
    ∀ q ∈ tried, Accepts env content q ↔ Valid env first s.past q
  someone : ∃ p ∈ tried, Valid env first s.past p
  gate : ∀ task, s.gate = some task → task.Keeps env tried (Valid env first s.past)

namespace FrontDoor

variable {s s' : FrontDoor}

/-- Deeds other than a landed password change leave the passwords that are valid. -/
theorem Kept.aside (h : Kept env tried first s) {gate : Option Task} {entries : Sessions.Table}
    {now : ℕ} {read : ℕ → Option (List UInt8)} {auth : ℕ → Option String} {past : List Deed}
    (hpast : lastSet past = lastSet s.past)
    (hgate : ∀ task, gate = some task → task.Keeps env tried (Valid env first s.past)) :
    Kept env tried first { file := s.file, entries, now, gate, read, auth, past } := by
  have hvalid : Valid env first past = Valid env first s.past := by
    unfold Valid
    rw [hpast]
  refine ⟨?_, ?_, ?_⟩ <;> dsimp only <;> rw [hvalid]
  · exact h.file
  · exact h.someone
  · exact hgate

theorem Kept.replace (h : Kept env tried first s) {content other : List UInt8}
    (hcontent : s.file = .holds content) (hrestored : Restored env content other) :
    Kept env tried first { s with file := .holds other } := by
  obtain ⟨found, hfound, haccepts⟩ := h.file
  obtain ⟨p, hp, hvalid⟩ := h.someone
  have hsame : found = content := by
    rw [hcontent, AuthFile.bytes] at hfound
    split_ifs at hfound
    exact (Except.ok.inj hfound).symm
  subst hsame
  have hother : (AuthFile.holds other).bytes = .ok other := by
    obtain ⟨_, _, _, _, _, _, _, _, hreads⟩ := hrestored
    exact hreads.bytes
  refine ⟨⟨other, hother, fun q hq => ?_⟩, h.someone, h.gate⟩
  exact (hrestored.accepts ((haccepts p hp).mpr hvalid) q).trans (haccepts q hq)

theorem Kept.check (h : Kept env tried first s) {job : Job} {password : String}
    {nonce : List UInt8} (hgate : s.gate = some (.entered job password)) :
    ∀ task, checked env job password nonce s.file = some task →
      task.Keeps env tried (Valid env first s.past) := by
  intro task htask
  obtain ⟨hpassword, hjob⟩ := h.gate _ hgate
  obtain ⟨content, hcontent, haccepts⟩ := h.file
  unfold checked at htask
  rw [hcontent] at htask
  dsimp only at htask
  split at htask
  · rename_i upgrade hjudge
    cases htask
    exact ⟨hpassword, hjob, haccepts, nonce, hjudge⟩
  · cases htask

theorem Kept.confirm (hlawful : Lawful env tried) (h : Kept env tried first s) {job : Job}
    {password : String} {content : List UInt8} {upgrade : Option Json}
    (hgate : s.gate = some (.checked job password content upgrade)) :
    (confirmed job password content upgrade).Keeps env tried (Valid env first s.past) := by
  obtain ⟨hpassword, hjob, haccepts, nonce, hjudge⟩ := h.gate _ hgate
  cases upgrade with
  | none => exact hjob
  | some record =>
    refine ⟨hjob, fun q hq => ?_⟩
    unfold judge at hjudge
    split at hjudge
    · rw [Except.ok.injEq, Prod.mk.injEq] at hjudge
      cases hjudge.2
    · rename_i hsome
      split at hjudge
      · cases hjudge
      · rename_i stored hparse
        rw [upgraded_admits hlawful hjudge hpassword hq, ← accepts_iff hsome hparse]
        exact haccepts q hq

/-- Only a password change makes other passwords valid. -/
theorem Kept.land (h : Kept env tried first s) {job : Job} {grounds : Grounds} {record : Json}
    {content : List UInt8} (hgate : s.gate = some (.writing job grounds false))
    (hrecord : grounds.record = some record) (hreads : ReadsBack env record content) :
    Kept env tried first { s with
      file := .holds content
      gate := some (.writing job grounds true)
      past := .landed grounds :: s.past } := by
  obtain ⟨hjob, hkeeps⟩ := h.gate _ hgate
  have hgate' {past : List Deed} : ∀ task, some (Task.writing job grounds true) = some task →
      task.Keeps env tried (Valid env first past) := by
    intro task htask
    obtain rfl := Option.some.inj htask
    exact hjob
  cases grounds with
  | verified => cases hrecord
  | upgraded =>
    cases hrecord
    exact ⟨⟨content, hreads.bytes, fun q hq => (hreads.accepts q).trans (hkeeps q hq)⟩, h.someone,
      hgate'⟩
  | set current new =>
    cases hrecord
    exact ⟨⟨content, hreads.bytes, fun q hq => (hreads.accepts q).trans (hkeeps.2 q hq)⟩,
      ⟨new, hkeeps.1, rfl⟩, hgate'⟩

theorem Kept.step (hlawful : Lawful env tried) (h : Kept env tried first s) {a : Act}
    (hcareful : Careful env tried s a) (hstep : s.step env a = some s') :
    Kept env tried first s' := by
  have hnone : ∀ task, (none : Option Task) = some task →
      task.Keeps env tried (Valid env first s.past) := fun _ htask => (by cases htask)
  have hone {task : Task} (htask : task.Keeps env tried (Valid env first s.past)) :
      ∀ other, some task = some other → other.Keeps env tried (Valid env first s.past) :=
    fun _ heq => Option.some.inj heq ▸ htask
  unfold FrontDoor.step at hstep
  cases a <;> dsimp only at hstep
  case replace file =>
    cases hstep
    obtain ⟨content, other, hcontent, rfl, hrestored⟩ := hcareful
    exact h.replace hcontent hrestored
  case tick =>
    cases hstep
    exact h.aside rfl h.gate
  case leave =>
    cases hstep
    exact h.aside rfl hnone
  case enter job password =>
    split at hstep
    case h_3 => cases hstep
    all_goals
      cases hstep
      exact h.aside rfl (hone hcareful)
  case check nonce =>
    split at hstep
    · rename_i job password hgate
      cases hstep
      exact h.aside rfl (h.check hgate)
    · cases hstep
  case confirm =>
    split at hstep
    · rename_i job password content upgrade hgate
      cases hstep
      refine h.aside rfl ?_
      split
      · exact hone (h.confirm hlawful hgate)
      · exact hnone
    · cases hstep
  case land =>
    split at hstep
    · rename_i job grounds hgate
      obtain ⟨content, hwrite, rfl⟩ := Option.map_eq_some_iff.mp hstep
      obtain ⟨record, hrecord, hwrite⟩ := Option.bind_eq_some_iff.mp hwrite
      have hpending : s.pendingRecord = some record := by
        rw [FrontDoor.pendingRecord, hgate]
        exact hrecord
      exact h.land hgate hrecord (hcareful record hpending content hwrite)
    · cases hstep
  case answered =>
    split at hstep
    · rename_i job grounds hgate
      cases hstep
      have hjob : job.Tried tried := h.gate _ hgate
      exact h.aside rfl (hone hjob)
    · cases hstep
  case recheck =>
    split at hstep
    · rename_i job grounds hgate
      cases hstep
      have hjob : job.Tried tried := h.gate _ hgate
      refine h.aside rfl ?_
      split
      · exact hone hjob
      · exact hnone
    · cases hstep
  case hash nonce salt =>
    split at hstep
    · rename_i new grounds hgate
      have hnew : new ∈ tried := h.gate _ hgate
      split at hstep
      · cases hstep
        exact h.aside rfl hnone
      · split at hstep
        · rename_i record hrecord
          cases hstep
          exact h.aside rfl
            (hone ⟨trivial, hnew, fun q hq => new_admits hlawful hrecord hnew hq⟩)
        · cases hstep
          exact h.aside rfl hnone
    · cases hstep
  case clear =>
    split at hstep
    · cases hstep
      exact h.aside rfl (hone trivial)
    · cases hstep
  case create token id csrf oldest =>
    split at hstep
    case h_3 => cases hstep
    all_goals
      obtain ⟨entries, _, rfl⟩ := Option.map_eq_some_iff.mp hstep
      exact h.aside rfl hnone
  case stamp request =>
    split at hstep
    · cases hstep
      exact h.aside rfl h.gate
    · cases hstep
  case get request token =>
    obtain ⟨content, _, rfl⟩ := Option.map_eq_some_iff.mp hstep
    split <;> exact h.aside rfl h.gate
  case logOut request =>
    obtain ⟨token, _, rfl⟩ := Option.map_eq_some_iff.mp hstep
    exact h.aside rfl h.gate

/-- However logins with their upgrades, password changes, restored backups and requests follow each
other, failed and abandoned ones among them: the file accepts the passwords that it accepted at
first, and after a password change exactly the new one. -/
theorem passwords_kept (hlawful : Lawful env tried) {file : AuthFile}
    (hfile : file.bytes = .ok first) (hworks : ∃ p ∈ tried, Accepts env first p) {acts : List Act}
    (hcareful : Steps.Meets (FrontDoor.step env) (Careful env tried) { file } acts)
    (hrun : Steps.after (FrontDoor.step env) { file } acts = some s) :
    ∃ content, s.file.bytes = .ok content ∧
      ∀ q ∈ tried, Accepts env content q ↔ Valid env first s.past q := by
  have hfresh : Kept env tried first { file } :=
    ⟨⟨first, hfile, fun _ _ => Iff.rfl⟩, hworks, fun _ htask => (by cases htask)⟩
  exact (hcareful.inv (fun _ _ _ h hleave hstep => h.step hlawful hleave hstep) hfresh hrun).file

/-- Stands for the hash functions, on two passwords; the JSON is real. -/
def twoPasswords : Crypto where
  sha := id
  scrypt password _ := password
  argon _ password := if password = bytes "geheim" then
      "$argon2id$v=19$m=19456,t=2,p=1$c2FsdHNhbHQ$Z2VoZWltZ2VoZWlt"
    else "$argon2id$v=19$m=19456,t=2,p=1$c2FsdHNhbHQ$bmRpbW9ubmRpbW9u"
  verify phc password := some (phc = if password = bytes "geheim" then
      "$argon2id$v=19$m=19456,t=2,p=1$c2FsdHNhbHQ$Z2VoZWltZ2VoZWlt"
    else "$argon2id$v=19$m=19456,t=2,p=1$c2FsdHNhbHQ$bmRpbW9ubmRpbW9u")
  parse content := Json.Reader.read (fun _ => none) (content.map fun b => Char.ofNat b.toNat)
  floatText _ := "0"

def bothPasswords : List String := ["ndimon", "geheim"]

theorem twoPasswords_lawful : Lawful twoPasswords bothPasswords where
  scrypt _ _ _ _ _ h := h
  verify p hp q hq nonce := by
    have hall : ∀ p ∈ bothPasswords, ∀ q ∈ bothPasswords,
        twoPasswords.verify (twoPasswords.argon [] (bytes p)) (bytes q) =
          some (decide (bytes p = bytes q)) := by decide +kernel
    exact hall p hp q hq
  bounded p hp nonce := by
    have hall : ∀ p ∈ bothPasswords, boundedPhc (twoPasswords.argon [] (bytes p)) = true := by
      decide +kernel
    exact hall p hp

/-- The factory password is changed, up to the write of the new record. -/
def change : List Act :=
  [.enter (.changePassword "geheim") "ndimon", .check [], .confirm, .recheck, .hash [] []]

theorem change_kept : ∃ s, Steps.after (FrontDoor.step twoPasswords) { file := .missing }
    (change ++ [.land]) = some s ∧ lastSet s.past = some "geheim" ∧
    ∃ content, s.file.bytes = .ok content ∧ ∀ q ∈ bothPasswords,
      Accepts twoPasswords content q ↔ Valid twoPasswords [] s.past q := by
  have hsome : (Steps.after (FrontDoor.step twoPasswords) { file := .missing } change).isSome =
      true := by decide +kernel
  obtain ⟨t, ht⟩ := Option.isSome_iff_exists.mp hsome
  have hland : ∀ t ∈ Steps.after (FrontDoor.step twoPasswords) { file := .missing } change,
      (∀ record ∈ t.pendingRecord, ∀ content ∈ privdWrite twoPasswords record,
        ReadsBack twoPasswords record content) ∧
      ((t.step twoPasswords .land).any fun s => lastSet s.past = some "geheim") = true := by
    decide +kernel
  obtain ⟨hreads, hany⟩ := hland t ht
  obtain ⟨s, hs, hset⟩ := (Option.any_eq_true _ _).mp hany
  have hlast : Steps.after (FrontDoor.step twoPasswords) t [.land] = some s :=
    Steps.after_cons.mpr ⟨s, hs, rfl⟩
  have hcareful : Steps.Meets (FrontDoor.step twoPasswords) (Careful twoPasswords bothPasswords)
      { file := .missing } (change ++ [.land]) := by
    refine (Steps.Meets.of_always (fun a ha t => ?_) _).append ht ⟨hreads, ?_⟩
    · simp only [change, List.mem_cons, List.not_mem_nil, or_false] at ha
      rcases ha with rfl | rfl | rfl | rfl | rfl
      · exact ⟨by decide, show "geheim" ∈ bothPasswords by decide⟩
      all_goals trivial
    · rw [hs]
      trivial
  have hrun := Steps.after_append ht hlast
  refine ⟨s, hrun, of_decide_eq_true hset, ?_⟩
  exact passwords_kept twoPasswords_lawful rfl ⟨"ndimon", by decide, [], none, by decide +kernel⟩
    hcareful hrun

end FrontDoor

end NdimonR.Control
