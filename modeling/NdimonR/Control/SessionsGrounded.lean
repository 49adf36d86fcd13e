import NdimonR.Control.Sessions

/-! What stands behind a request that is let in: a login or a password change of this very record,
and no logout and no password change since. -/

namespace NdimonR.Control

variable {env : Crypto}

namespace Grounds

/-- The password that was given at the gate. -/
def password : Grounds → String
  | .verified _ password | .upgraded _ password _ => password
  | .set current _ _ => current.password

/-- What was asked at the gate; a record that was set is of a password change. -/
def asked (job : Job) : Grounds → Job
  | .set _ new _ => .changePassword new
  | _ => job

def isSet : Grounds → Bool
  | .set .. => true
  | _ => false

theorem asked_of_isSet {grounds : Grounds} (h : grounds.isSet = true) (job other : Job) :
    grounds.asked job = grounds.asked other := by
  cases grounds with
  | verified | upgraded => cases h
  | set => rfl

/-- The password was the record's, and a new record is that of the password that was set. -/
def Right (env : Crypto) : Grounds → Prop
  | .verified content password => ∃ nonce, judge env nonce content password = .ok (true, none)
  | .upgraded content password record =>
    ∃ nonce, judge env nonce content password = .ok (true, some record)
  | .set current new record => current.Right env ∧ 6 ≤ Throttle.utf16Count new ∧
    ∃ nonce salt, newRecord env nonce salt new = .ok record

end Grounds

/-- What is known of grounds while they are at the gate. -/
structure Rests (env : Crypto) (past : List Deed) (job : Job) (grounds : Grounds) : Prop where
  right : grounds.Right env
  asked : .asked (grounds.asked job) grounds.password ∈ past
  set : job = .setPassword ↔ grounds.isSet = true

def Task.Sound (env : Crypto) (past : List Deed) : Task → Prop
  | .entered job password => job ≠ .setPassword ∧ .asked job password ∈ past
  | .checked job password content upgrade =>
    job ≠ .setPassword ∧ .asked job password ∈ past ∧
      ∃ nonce, judge env nonce content password = .ok (true, upgrade)
  | .writing job grounds _ | .written job grounds | .verified job grounds =>
    Rests env past job grounds
  | .cleared grounds => Rests env past .setPassword grounds

/-- Neither a logout with the token nor a password change. -/
def Standing (token : String) (deeds : List Deed) : Prop :=
  ∀ d ∈ deeds, d ≠ .loggedOut token ∧ d ≠ .changed

/-- When the token was last used, or its session opened. -/
def lastUse (token : String) : List Deed → Option ℕ
  | [] => none
  | .opened t session _ :: rest | .used t session _ :: rest =>
    if t = token then some session.lastUsed else lastUse token rest
  | _ :: rest => lastUse token rest

/-- How a session that stands was opened. -/
def Opened (env : Crypto) (past : List Deed) (token : String) (session : Session) : Prop :=
  ∃ later opened grounds before, past = later ++ .opened token opened grounds :: before ∧
    Standing token later ∧ session = { opened with lastUsed := session.lastUsed } ∧
    opened.credential = grounds.credential env ∧ grounds.Right env ∧
    .asked (grounds.asked .logIn) grounds.password ∈ before

structure Live (env : Crypto) (past : List Deed) (token : String) (session : Session) : Prop where
  opened : Opened env past token session
  last : lastUse token past = some session.lastUsed

/-- Why a request was let in. -/
structure Grounded (env : Crypto) (earlier : List Deed) (token : String) (session : Session)
    (content : List UInt8) : Prop where
  opened : Opened env earlier token session
  credential : session.credential = env.sha content
  recent : ∃ t ∈ lastUse token earlier, session.lastUsed < t + Sessions.idle

theorem Standing.cons {token : String} {deeds : List Deed} {d : Deed} (h : Standing token deeds)
    (hout : d ≠ .loggedOut token) (hchanged : d ≠ .changed) : Standing token (d :: deeds) := by
  intro e he
  rcases List.mem_cons.mp he with rfl | he
  · exact ⟨hout, hchanged⟩
  · exact h e he

theorem Opened.cons {past : List Deed} {token : String} {session : Session} {d : Deed}
    (h : Opened env past token session) (hout : d ≠ .loggedOut token) (hchanged : d ≠ .changed)
    (time : ℕ) : Opened env (d :: past) token { session with lastUsed := time } := by
  obtain ⟨later, opened, grounds, before, rfl, hstanding, hsession, hcredential, hright, hasked⟩ :=
    h
  refine ⟨d :: later, opened, grounds, before, rfl, hstanding.cons hout hchanged, ?_, hcredential,
    hright, hasked⟩
  rw [hsession]

/-- A deed about another session. -/
def Deed.aside (token : String) : Deed → Prop
  | .asked .. | .landed _ => True
  | .opened t _ _ | .used t _ _ | .loggedOut t => t ≠ token
  | .changed => False

theorem Live.cons {past : List Deed} {token : String} {session : Session} {d : Deed}
    (h : Live env past token session) (haside : d.aside token) :
    Live env (d :: past) token session := by
  refine ⟨h.opened.cons ?_ ?_ session.lastUsed, ?_⟩
  · rintro rfl
    exact haside rfl
  · rintro rfl
    exact haside
  · cases d with
    | asked | landed => exact h.last
    | opened | used => exact (if_neg haside).trans h.last
    | loggedOut => exact h.last
    | changed => exact haside.elim

theorem Rests.cons {past : List Deed} {job : Job} {grounds : Grounds}
    (h : Rests env past job grounds) (d : Deed) : Rests env (d :: past) job grounds :=
  ⟨h.right, List.mem_cons_of_mem d h.asked, h.set⟩

theorem Task.Sound.cons {past : List Deed} {task : Task} (h : task.Sound env past) (d : Deed) :
    task.Sound env (d :: past) := by
  cases task with
  | entered => exact ⟨h.1, List.mem_cons_of_mem d h.2⟩
  | checked => exact ⟨h.1, List.mem_cons_of_mem d h.2.1, h.2.2⟩
  | writing | written | verified | cleared => exact Rests.cons h d

structure FrontDoor.Inv (env : Crypto) (s : FrontDoor) : Prop where
  entries : ∀ token session, s.entries.get? token = some session → Live env s.past token session
  gate : ∀ task, s.gate = some task → task.Sound env s.past
  past : ∀ later token session content earlier,
    s.past = later ++ .used token session content :: earlier →
      Grounded env earlier token session content

namespace FrontDoor

variable {s s' : FrontDoor}

theorem Inv.fresh (file : AuthFile) : Inv env { file } where
  entries _ _ h := by cases h
  gate _ h := by cases h
  past later _ _ _ _ h := by cases later <;> cases h

/-- The file, the clock and what requests have read are nothing to the invariant. -/
theorem Inv.task (h : Inv env s) {gate : Option Task} {file : AuthFile} {now : ℕ}
    {read : ℕ → Option (List UInt8)} {auth : ℕ → Option String}
    (hgate : ∀ task, gate = some task → task.Sound env s.past) :
    Inv env { s with file, now, gate, read, auth } :=
  ⟨h.entries, hgate, h.past⟩

/-- Sessions that go leave the others as they are. -/
theorem Inv.fewer (h : Inv env s) {entries : Sessions.Table} {auth : ℕ → Option String}
    (hfewer : ∀ token session, entries.get? token = some session →
      s.entries.get? token = some session) : Inv env { s with entries, auth } :=
  ⟨fun token session hsession => h.entries token session (hfewer token session hsession), h.gate,
    h.past⟩

theorem past_cons {past : List Deed} {d : Deed}
    {P : String → Session → List UInt8 → List Deed → Prop}
    (hpast : ∀ later token session content earlier,
      past = later ++ .used token session content :: earlier → P token session content earlier)
    (hd : ∀ token session content, d = .used token session content →
      P token session content past) :
    ∀ later token session content earlier,
      d :: past = later ++ .used token session content :: earlier →
        P token session content earlier := by
  intro later token session content earlier heq
  cases later with
  | nil =>
    obtain ⟨rfl, rfl⟩ := List.cons.inj heq
    exact hd token session content rfl
  | cons e later =>
    obtain ⟨rfl, rfl⟩ := List.cons.inj heq
    exact hpast later token session content earlier rfl

theorem Inv.enter (h : Inv env s) {job : Job} (hjob : job ≠ .setPassword) (password : String) :
    Inv env { s with
      gate := some (.entered job password)
      past := .asked job password :: s.past } where
  entries token session hsession := (h.entries token session hsession).cons trivial
  gate task htask := by
    obtain rfl := Option.some.inj htask
    exact ⟨hjob, .head _⟩
  past := past_cons h.past fun _ _ _ heq => (by cases heq)

theorem Inv.land (h : Inv env s) {job : Job} {grounds : Grounds} (file : AuthFile)
    (hgate : s.gate = some (.writing job grounds false)) :
    Inv env { s with
      file
      gate := some (.writing job grounds true)
      past := .landed grounds :: s.past } where
  entries token session hsession := (h.entries token session hsession).cons trivial
  gate task htask := by
    obtain rfl := Option.some.inj htask
    have hrests : Rests env s.past job grounds := h.gate _ hgate
    exact hrests.cons (.landed grounds)
  past := past_cons h.past fun _ _ _ heq => (by cases heq)

theorem Inv.check (h : Inv env s) {job : Job} {password : String} {nonce : List UInt8}
    (hgate : s.gate = some (.entered job password)) :
    Inv env { s with gate := checked env job password nonce s.file } := by
  obtain ⟨hjob, hasked⟩ := h.gate _ hgate
  refine h.task fun task htask => ?_
  unfold checked at htask
  split at htask
  · cases htask
  · split at htask
    · rename_i hjudge
      obtain rfl := Option.some.inj htask
      exact ⟨hjob, hasked, nonce, hjudge⟩
    · cases htask

theorem Inv.confirm (h : Inv env s) {job : Job} {password : String} {content : List UInt8}
    {upgrade : Option Json} (hgate : s.gate = some (.checked job password content upgrade)) :
    (confirmed job password content upgrade).Sound env s.past := by
  obtain ⟨hjob, hasked, nonce, hjudge⟩ := h.gate _ hgate
  have hset {grounds : Grounds} (hnot : grounds.isSet = false) :
      job = .setPassword ↔ grounds.isSet = true := by simp [hjob, hnot]
  cases upgrade with
  | none => exact ⟨⟨nonce, hjudge⟩, hasked, hset rfl⟩
  | some record => exact ⟨⟨nonce, hjudge⟩, hasked, hset rfl⟩

theorem Inv.hash (h : Inv env s) {new : String} {grounds : Grounds} {nonce salt : List UInt8}
    {record : Json} (hgate : s.gate = some (.verified (.changePassword new) grounds))
    (hlong : ¬ Throttle.utf16Count new < 6)
    (hrecord : newRecord env nonce salt new = .ok record) :
    Rests env s.past .setPassword (.set grounds new record) := by
  have hrests : Rests env s.past (.changePassword new) grounds := h.gate _ hgate
  refine ⟨⟨hrests.right, Nat.le_of_not_lt hlong, nonce, salt, hrecord⟩, ?_, by simp [Grounds.isSet]⟩
  have hasked := hrests.asked
  cases grounds with
  | verified | upgraded => exact hasked
  | set => cases hrests.set.mpr rfl

theorem Inv.clear (h : Inv env s) {grounds : Grounds}
    (hgate : s.gate = some (.verified .setPassword grounds)) :
    Inv env { s with
      entries := .empty
      gate := some (.cleared grounds)
      past := .changed :: s.past } where
  entries _ _ hsession := by cases hsession
  gate task htask := by
    obtain rfl := Option.some.inj htask
    have hrests : Rests env s.past .setPassword grounds := h.gate _ hgate
    exact hrests.cons .changed
  past := past_cons h.past fun _ _ _ heq => (by cases heq)

theorem create_eq {token oldest : String} {session : Session} {entries made : Sessions.Table}
    (h : Sessions.create token session oldest entries = some made) :
    made.get? token = some session ∧ ∀ t, t ≠ token → ∀ x, made.get? t = some x →
      entries.get? t = some x := by
  have hkept {t : String} {x : Session}
      (hx : (Sessions.kept session.lastUsed entries).get? t = some x) :
      entries.get? t = some x := by
    rw [Sessions.kept, SortedMap.get?_filter] at hx
    exact (Option.filter_eq_some_iff.mp hx).1
  unfold Sessions.create at h
  dsimp only at h
  split_ifs at h
  all_goals
    cases h
    refine ⟨by simp, fun t ht x hx => ?_⟩
    rw [SortedMap.get?_insert, if_neg ht] at hx
  · exact hkept hx
  · rw [SortedMap.get?_erase] at hx
    split at hx
    · cases hx
    · exact hkept hx

/-- A session is opened on the grounds at the gate. -/
theorem Inv.openSession (h : Inv env s) {token id csrf oldest : String} {grounds : Grounds}
    (hright : grounds.Right env) (hasked : .asked (grounds.asked .logIn) grounds.password ∈ s.past)
    (hopen : s.openSession env token id csrf oldest grounds = some s') : Inv env s' := by
  unfold FrontDoor.openSession at hopen
  obtain ⟨entries, hcreate, rfl⟩ := Option.map_eq_some_iff.mp hopen
  obtain ⟨hnew, hold⟩ := create_eq hcreate
  refine ⟨fun t x hx => ?_, fun _ htask => (by cases htask), past_cons h.past fun _ _ _ heq => ?_⟩
  · by_cases ht : t = token
    · subst ht
      cases hnew.symm.trans hx
      exact ⟨⟨[], _, grounds, s.past, rfl, fun _ hd => (by cases hd), rfl, rfl, hright, hasked⟩,
        if_pos rfl⟩
    · exact (h.entries t x (hold t ht x hx)).cons (Ne.symm ht)
  · cases heq

theorem get_none {token : String} {credential : List UInt8} {now : ℕ}
    {entries left : Sessions.Table} (h : Sessions.get token credential now entries = (none, left)) :
    ∀ t x, left.get? t = some x → entries.get? t = some x := by
  unfold Sessions.get at h
  split at h
  · cases h
    exact fun _ _ hx => hx
  · split_ifs at h
    · cases h
      intro t x hx
      rw [SortedMap.get?_erase] at hx
      split at hx
      · cases hx
      · exact hx
    · cases h

theorem get_some {token : String} {credential : List UInt8} {now : ℕ} {session : Session}
    {entries left : Sessions.Table}
    (h : Sessions.get token credential now entries = (some session, left)) :
    ∃ found, entries.get? token = some found ∧ found.credential = credential ∧
      now - found.lastUsed < Sessions.idle ∧ session = { found with lastUsed := now } ∧
      left = entries.insert token session := by
  unfold Sessions.get at h
  split at h
  · cases h
  · rename_i found hfound
    split_ifs at h with hgone
    · cases h
    · rw [not_or, not_not, Nat.not_le] at hgone
      cases h
      exact ⟨found, hfound, hgone.1, hgone.2, rfl, rfl⟩

/-- A request is let in. -/
theorem Inv.get (h : Inv env s) {token : String} {content : List UInt8} {session : Session}
    {entries : Sessions.Table} {auth : ℕ → Option String}
    (hget : Sessions.get token (env.sha content) s.now s.entries = (some session, entries)) :
    Inv env { s with
      entries
      auth
      past := .used token session content :: s.past } := by
  obtain ⟨found, hfound, hcredential, hrecent, rfl, rfl⟩ := get_some hget
  have hlive := h.entries token found hfound
  have hopened {d : Deed} (hout : d ≠ .loggedOut token) (hchanged : d ≠ .changed) :=
    hlive.opened.cons hout hchanged s.now
  refine ⟨fun t x hx => ?_, fun task htask => (h.gate task htask).cons _,
    past_cons h.past fun t x c heq => ?_⟩
  · dsimp only at hx
    rw [SortedMap.get?_insert] at hx
    split at hx
    · rename_i ht
      subst ht
      cases hx
      exact ⟨hopened (by simp) (by simp), if_pos rfl⟩
    · rename_i ht
      exact (h.entries t x hx).cons (Ne.symm ht)
  · cases heq
    refine ⟨?_, hcredential, found.lastUsed, hlive.last, ?_⟩
    · obtain ⟨later, opened, grounds, before, hpast, hstanding, hsession, hrest⟩ := hlive.opened
      refine ⟨later, opened, grounds, before, hpast, hstanding, ?_, hrest⟩
      rw [hsession]
    · dsimp only
      omega

theorem Inv.logOut (h : Inv env s) (token : String) :
    Inv env { s with
      entries := s.entries.erase token
      past := .loggedOut token :: s.past } where
  entries t x hx := by
    dsimp only at hx
    rw [SortedMap.get?_erase] at hx
    split at hx
    · cases hx
    · rename_i ht
      exact (h.entries t x hx).cons (Ne.symm ht)
  gate task htask := (h.gate task htask).cons _
  past := past_cons h.past fun _ _ _ heq => (by cases heq)

theorem Inv.step (h : Inv env s) {a : Act} (hstep : s.step env a = some s') : Inv env s' := by
  have hnone : ∀ task, (none : Option Task) = some task → task.Sound env s.past :=
    fun _ htask => (by cases htask)
  unfold FrontDoor.step at hstep
  cases a <;> dsimp only at hstep
  case replace | tick | leave =>
    cases hstep
    first
      | exact h.task h.gate
      | exact h.task hnone
  case enter job password =>
    split at hstep
    case h_3 => cases hstep
    all_goals
      cases hstep
      exact h.enter (by simp) password
  case check nonce =>
    split at hstep
    · rename_i job password hgate
      cases hstep
      exact h.check hgate
    · cases hstep
  case confirm =>
    split at hstep
    · rename_i job password content upgrade hgate
      cases hstep
      refine h.task fun task htask => ?_
      split at htask
      · exact Option.some.inj htask ▸ h.confirm hgate
      · cases htask
    · cases hstep
  case land =>
    split at hstep
    · rename_i job grounds hgate
      obtain ⟨content, _, rfl⟩ := Option.map_eq_some_iff.mp hstep
      exact h.land (.holds content) hgate
    · cases hstep
  case answered =>
    split at hstep
    · rename_i job grounds hgate
      cases hstep
      have hrests : Rests env s.past job grounds := h.gate _ hgate
      refine h.task fun task htask => ?_
      obtain rfl := Option.some.inj htask
      exact hrests
    · cases hstep
  case recheck =>
    split at hstep
    · rename_i job grounds hgate
      cases hstep
      have hrests : Rests env s.past job grounds := h.gate _ hgate
      refine h.task fun task htask => ?_
      split at htask
      · obtain rfl := Option.some.inj htask
        exact hrests
      · cases htask
    · cases hstep
  case hash nonce salt =>
    split at hstep
    · rename_i new grounds hgate
      split at hstep
      · cases hstep
        exact h.task hnone
      · rename_i hlong
        split at hstep
        · rename_i record hrecord
          cases hstep
          refine h.task fun task htask => ?_
          obtain rfl := Option.some.inj htask
          exact h.hash hgate hlong hrecord
        · cases hstep
          exact h.task hnone
    · cases hstep
  case clear =>
    split at hstep
    · rename_i grounds hgate
      cases hstep
      exact h.clear hgate
    · cases hstep
  case create token id csrf oldest =>
    split at hstep
    · rename_i grounds hgate
      have hrests : Rests env s.past .logIn grounds := h.gate _ hgate
      exact h.openSession hrests.right hrests.asked hstep
    · rename_i grounds hgate
      have hrests : Rests env s.past .setPassword grounds := h.gate _ hgate
      have hasked := hrests.asked
      rw [Grounds.asked_of_isSet (hrests.set.mp rfl) .setPassword .logIn] at hasked
      exact h.openSession hrests.right hasked hstep
    · cases hstep
  case stamp request =>
    split at hstep
    · cases hstep
      exact h.task h.gate
    · cases hstep
  case get request token =>
    obtain ⟨content, _, rfl⟩ := Option.map_eq_some_iff.mp hstep
    split
    · rename_i entries hget
      exact h.fewer (get_none hget)
    · rename_i session entries hget
      exact h.get hget
  case logOut request =>
    obtain ⟨token, _, rfl⟩ := Option.map_eq_some_iff.mp hstep
    exact h.logOut token

/-- However logins, password changes, logouts, requests, replaced files, abandoned requests and the
clock follow each other: a request that was let in came with the token of a session that was opened
on the very record it read, and since then there was no logout with it and no password change. -/
theorem sessions_grounded {file : AuthFile} {acts : List Act}
    (hrun : Steps.after (FrontDoor.step env) { file } acts = some s) {later earlier : List Deed}
    {token : String} {session : Session} {content : List UInt8}
    (hused : s.past = later ++ .used token session content :: earlier) :
    (∃ between opened grounds before,
      earlier = between ++ .opened token opened grounds :: before ∧
      (∀ d ∈ between, d ≠ .loggedOut token ∧ d ≠ .changed) ∧
      session = { opened with lastUsed := session.lastUsed } ∧
      env.sha content = grounds.credential env ∧ grounds.Right env ∧
      .asked (grounds.asked .logIn) grounds.password ∈ before) ∧
    ∃ t ∈ lastUse token earlier, session.lastUsed < t + Sessions.idle := by
  have hinv : Inv env s := Steps.after_inv (fun _ _ _ h hstep => h.step hstep) (.fresh file) hrun
  have hgrounded := hinv.past later token session content earlier hused
  obtain ⟨between, opened, grounds, before, heq, hstanding, hsession, hcredential, hrest⟩ :=
    hgrounded.opened
  have hread : session.credential = env.sha content := hgrounded.credential
  rw [hsession] at hread
  exact ⟨⟨between, opened, grounds, before, heq, hstanding, hsession,
    hread.symm.trans hcredential, hrest⟩, hgrounded.recent⟩

/-- Nothing but the factory password is asked of these functions here. -/
def sampleCrypto : Crypto where
  sha := id
  scrypt _ _ := []
  argon _ _ := ""
  verify _ _ := none
  parse _ := none
  floatText _ := ""

def signIn : List Act :=
  [.enter .logIn "ndimon", .check [], .confirm, .recheck, .create "token" "id" "csrf" "", .stamp 0,
    .get 0 "token"]

def endsUsed : List Deed → Bool
  | .used .. :: _ => true
  | _ => false

theorem exists_of_endsUsed {past : List Deed} (h : endsUsed past = true) :
    ∃ token session content earlier, past = [] ++ .used token session content :: earlier := by
  unfold endsUsed at h
  split at h
  · exact ⟨_, _, _, _, rfl⟩
  · cases h

theorem signIn_grounded : ∃ s token session content earlier,
    Steps.after (FrontDoor.step sampleCrypto) { file := .missing } signIn = some s ∧
    s.past = [] ++ .used token session content :: earlier ∧
    (∃ between opened grounds before,
      earlier = between ++ .opened token opened grounds :: before ∧
      (∀ d ∈ between, d ≠ .loggedOut token ∧ d ≠ .changed) ∧
      session = { opened with lastUsed := session.lastUsed } ∧
      sampleCrypto.sha content = grounds.credential sampleCrypto ∧ grounds.Right sampleCrypto ∧
      .asked (grounds.asked .logIn) grounds.password ∈ before) ∧
    ∃ t ∈ lastUse token earlier, session.lastUsed < t + Sessions.idle := by
  have hends : (Steps.after (FrontDoor.step sampleCrypto) { file := .missing } signIn).any
      (fun s => endsUsed s.past) = true := by decide +kernel
  obtain ⟨s, hrun, hends⟩ := (Option.any_eq_true _ _).mp hends
  obtain ⟨token, session, content, earlier, hused⟩ := exists_of_endsUsed hends
  exact ⟨s, token, session, content, earlier, hrun, hused, sessions_grounded hrun hused⟩

end FrontDoor

end NdimonR.Control
