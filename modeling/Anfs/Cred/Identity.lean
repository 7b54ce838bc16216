import Anfs.Cred.Loop

/-!
# The identity a request runs under

The main loop compares the sender with the cached one, and the euid of a cached sender with
`cr_UID`. What these tests do not see is the condition here.
-/
namespace Anfs.Cred
open Anfs.Lib Anfs.Nfs Anfs.Buf

/-- An action that is not internal and not `act_IOCONTROL` is called under an `AUTH` made from
`cr_UID`, `cr_GID` and `cr_GIDS`, which are the identity of the user that is set, or the
sender's. -/
def RightIdentity (db : Netdb) (e : Event) : Prop :=
  match e.place with
  | .flush => True
  | .dispatch i creds => i.pkt.checked = true →
      ∃ auth ∈ e.auth, auth.identity = creds.identity ∧
        wantedIdentity db i.ans creds i.client = some creds.identity

/-- The credentials of the sender can be had, and are those in force if the euid is. -/
def SenderSame (h : Handler) (i : Input) : Prop :=
  match i.ans.credentials i.client with
  | some creds => creds.crEuid = h.creds.crUID → creds.identity = h.creds.identity
  | none => False

/-- The condition on a packet: a user is set only to the identity in force, and a cached
sender, whose credentials can be had, has not changed its gid or its groups without its
euid. -/
def KeepsIdentity (db : Netdb) (h : Handler) (i : Input) : Prop :=
  h.running = true →
    match i.pkt with
    | .setUser user => i.ans.memOk = true → getpwnam db i.ans user ≠ none →
        userIdentity db user = some h.creds.identity
    | .timer | .setUMask _ | .setWriteBufferLimit _ | .ioControl | .unknown | .quit _ => True
    | .file .. | .die _ | .other =>
        h.creds.crUserName = none → h.creds.crClientCache = some i.client → SenderSame h i

instance (h : Handler) (i : Input) : Decidable (SenderSame h i) :=
  match hcreds : i.ans.credentials i.client with
  | some creds => decidable_of_iff
      (creds.crEuid = h.creds.crUID → creds.identity = h.creds.identity)
      (by unfold SenderSame; rw [hcreds])
  | none => .isFalse (by unfold SenderSame; rw [hcreds]; exact id)

instance (db : Netdb) (h : Handler) (i : Input) : Decidable (KeepsIdentity db h i) :=
  match hpkt : i.pkt with
  | .setUser user => decidable_of_iff (h.running = true → i.ans.memOk = true →
        getpwnam db i.ans user ≠ none → userIdentity db user = some h.creds.identity)
      (by unfold KeepsIdentity; rw [hpkt])
  | .timer | .setUMask _ | .setWriteBufferLimit _ | .ioControl | .unknown | .quit _ =>
      .isTrue (by unfold KeepsIdentity; rw [hpkt]; exact fun _ => trivial)
  | .file .. | .die _ | .other => decidable_of_iff (h.running = true → h.creds.crUserName = none →
        h.creds.crClientCache = some i.client → SenderSame h i)
      (by unfold KeepsIdentity; rw [hpkt])

/-- The condition on the state a turn starts from, if there is one. -/
def OnHandler (ok : Handler → Input → Prop) (r : Except Fault Handler) (i : Input) : Prop :=
  ∀ h, r = .ok h → ok h i

instance {ok : Handler → Input → Prop} [∀ h i, Decidable (ok h i)] (r : Except Fault Handler)
    (i : Input) : Decidable (OnHandler ok r i) :=
  match r with
  | .ok h => decidable_of_iff (ok h i)
      ⟨fun hok _ hr => by cases hr; exact hok, fun hok => hok h rfl⟩
  | .error _ => .isTrue fun _ hr => nomatch hr

/-- The invariant: the `AUTH` in force has the identity of the credentials, and of the user. -/
structure Identified (db : Netdb) (h : Handler) : Prop where
  auth : ∃ auth, h.clAuth = some auth ∧ h.creds.crAuth = some auth ∧
    auth.identity = h.creds.identity
  user : ∀ user, h.creds.crUserName = some user → userIdentity db user = some h.creds.identity
  events : ∀ e ∈ h.events, RightIdentity db e

section Identified
variable {db : Netdb} {i : Input} {ans : Answers} {cr cr' : CRED} {client : Task} {h h' : Handler}

theorem wantedIdentity_congr (huser : cr'.crUserName = cr.crUserName) :
    wantedIdentity db ans cr' client = wantedIdentity db ans cr client := by
  unfold wantedIdentity
  rw [huser]

theorem Identified.keep (hid : Identified db h) (hauth : h'.clAuth = h.clAuth)
    (hcreds : KeepsAuth h.creds h'.creds) (hevents : ∀ e ∈ h'.events, RightIdentity db e) :
    Identified db h' := by
  obtain ⟨auth, hcl, hcr, hident⟩ := hid.auth
  refine ⟨⟨auth, hauth.trans hcl, hcreds.auth.trans hcr, ?_⟩, fun user huser => ?_, hevents⟩
  · rw [hcreds.identity]
    exact hident
  · rw [hcreds.identity]
    exact hid.user user (hcreds.user ▸ huser)

theorem userIdentity_passwd {user : String} {ident : Identity} {pw : Passwd}
    (h : userIdentity db user = some ident) (hpw : getpwnam db ans user = some pw) :
    pw.pwUid = ident.uid ∧ pw.pwGid = ident.gid := by
  unfold userIdentity at h
  rw [getpwnam_some hpw] at h
  split at h
  · rename_i pw' groups hpw' hgroups
    obtain rfl := Option.some.inj hpw'
    cases h
    exact ⟨rfl, rfl⟩
  · cases h

theorem Identified.setUser (hid : Identified db h) (user : String)
    (hok : ans.memOk = true → getpwnam db ans user ≠ none →
      userIdentity db user = some h.creds.identity) :
    Identified db { h with creds := (crSetUser db ans h.creds user).2 } := by
  rcases crSetUser_cases db ans h.creds user with hsame | ⟨pw, hmem, hpw, hnew⟩
  · rw [hsame]
    exact hid
  · have hident := hok hmem (by rw [hpw]; exact Option.some_ne_none pw)
    obtain ⟨huid, hgid⟩ := userIdentity_passwd hident hpw
    have hsame : (crSetUser db ans h.creds user).2.identity = h.creds.identity := by
      rw [hnew]
      simp only [CRED.identity] at huid hgid ⊢
      rw [huid, hgid]
    obtain ⟨auth, hcl, hcr, hauth⟩ := hid.auth
    refine ⟨⟨auth, hcl, ?_, hauth.trans hsame.symm⟩, fun name hname => ?_, hid.events⟩
    · simp only [hnew]
      exact hcr
    · simp only [hnew] at hname
      obtain rfl := Option.some.inj hname
      exact hident.trans (congrArg some hsame.symm)

theorem Identified.dispatch (hid : Identified db h) (hset : ∀ user, i.pkt = .setUser user →
      i.ans.memOk = true → getpwnam db i.ans user ≠ none →
        userIdentity db user = some h.creds.identity)
    (hright : i.pkt.checked = true →
      wantedIdentity db i.ans h.creds i.client = some h.creds.identity)
    (hrun : Cred.dispatch db i h = .ok h') : Identified db h' := by
  unfold Cred.dispatch at hrun
  obtain ⟨h₁, hcall, hrun⟩ := ok_of_bind hrun
  cases hrun
  obtain ⟨hauth, -, -, hcreds⟩ := callFunc_cases hcall
  have hevents : ∀ e ∈ (⟨.dispatch i h.creds, h.clAuth, h.auths.destroyed, h₁.files⟩ ::
    h.events : List Event),
      RightIdentity db e := by
    intro e he
    rcases List.mem_cons.mp he with rfl | he
    · intro hchecked
      obtain ⟨auth, hcl, -, hident⟩ := hid.auth
      exact ⟨auth, hcl, hident, hright hchecked⟩
    · exact hid.events e he
  rcases hcreds with hkeep | ⟨user, hpkt, hnew⟩
  · exact hid.keep hauth hkeep hevents
  · have hid' := hid.setUser user (hset user hpkt)
    rw [← hnew] at hid'
    exact ⟨by rw [hauth]; exact hid'.auth, hid'.user, hevents⟩

/-- What the condition says of a checked packet. -/
theorem KeepsIdentity.checked (hok : KeepsIdentity db h i) (hrunning : h.running = true)
    (hchecked : i.pkt.checked = true) (huser : h.creds.crUserName = none)
    (hcache : h.creds.crClientCache = some i.client) : SenderSame h i := by
  have hok := hok hrunning
  cases hpkt : i.pkt with
  | timer => rw [hpkt] at hchecked; cases hchecked
  | setUser user => rw [hpkt] at hchecked; cases hchecked
  | setUMask umask => rw [hpkt] at hchecked; cases hchecked
  | setWriteBufferLimit limit => rw [hpkt] at hchecked; cases hchecked
  | ioControl => rw [hpkt] at hchecked; cases hchecked
  | unknown => rw [hpkt] at hchecked; cases hchecked
  | quit locked => rw [hpkt] at hchecked; cases hchecked
  | file a sent => rw [hpkt] at hok; exact hok huser hcache
  | die locked => rw [hpkt] at hok; exact hok huser hcache
  | other => rw [hpkt] at hok; exact hok huser hcache

/-- A kept `AUTH` is the right one. -/
theorem Kept.wanted {go : Bool} (hid : Identified db h) (hkept : Kept i h go h')
    (hok : h.creds.crUserName = none → h.creds.crClientCache = some i.client → SenderSame h i) :
    wantedIdentity db i.ans h'.creds i.client = some h'.creds.identity := by
  rw [wantedIdentity_congr hkept.keeps.user, hkept.keeps.identity]
  cases huser : h.creds.crUserName with
  | some user =>
      simp only [wantedIdentity, huser]
      exact hid.user user huser
  | none =>
      obtain ⟨hcache, heuid⟩ := hkept.cached huser
      have hsame := hok huser hcache
      unfold SenderSame at hsame
      simp only [wantedIdentity, huser]
      cases hcreds : i.ans.credentials i.client with
      | none => rw [hcreds] at hsame; exact hsame.elim
      | some creds =>
          rw [hcreds] at hsame
          rw [Option.map_some, hsame (heuid creds hcreds)]

theorem Identified.handle (hid : Identified db h) (hok : KeepsIdentity db h i)
    (hrunning : h.running = true) (hrun : Cred.handle db i h = .ok h') : Identified db h' := by
  unfold Cred.handle at hrun
  split at hrun
  · rename_i hchecked
    have hset : ∀ user, i.pkt ≠ .setUser user := by
      intro user hpkt
      rw [hpkt] at hchecked
      cases hchecked
    obtain ⟨⟨go, h₁⟩, hrefresh, hrun⟩ := ok_of_bind hrun
    obtain ⟨auth, hcl, hcr, hident⟩ := hid.auth
    have hauth : h.creds.crAuth ≠ none := by rw [hcr]; exact Option.some_ne_none auth
    rcases refreshAuth_cases hauth hrefresh with hkept | hflushed
    · obtain rfl := hkept.go
      have hid₁ : Identified db h₁ := by
        rw [hkept.same]
        exact hid.keep rfl hkept.keeps hid.events
      have hwanted := hkept.wanted hid (hok.checked hrunning hchecked)
      exact hid₁.dispatch (fun user hpkt => absurd hpkt (hset user)) (fun _ => hwanted) hrun
    · obtain ⟨files, -, -, hevents⟩ := hflushed.flushed
      have hall : ∀ e ∈ h₁.events, RightIdentity db e := by
        rw [hevents]
        exact List.forall_mem_cons.mpr ⟨trivial, hid.events⟩
      rcases hflushed.outcome with ⟨rfl, cr, auth', hkeep, hcl', hnew⟩ | ⟨rfl, hcl', -, hkeep⟩
      · have huser : h₁.creds.crUserName = none :=
          hnew.user.trans (hkeep.user.trans hflushed.user)
        have hid₁ : Identified db h₁ :=
          ⟨⟨auth', hcl', hnew.stored, hnew.identity⟩,
            fun user hu => absurd (hu.symm.trans huser) (Option.some_ne_none user), hall⟩
        have hwanted : wantedIdentity db i.ans h₁.creds i.client = some h₁.creds.identity :=
          (wantedIdentity_congr hnew.user).trans hnew.wanted
        exact hid₁.dispatch (fun user hpkt => absurd hpkt (hset user)) (fun _ => hwanted) hrun
      · cases hrun
        exact hid.keep hcl' hkeep hall
  · rename_i hchecked
    refine hid.dispatch (fun user hpkt => ?_) (fun h => absurd h hchecked) hrun
    have hok := hok hrunning
    rw [hpkt] at hok
    exact hok

theorem Identified.turn (hid : Identified db h) (hok : KeepsIdentity db h i)
    (hrun : Cred.turn db h i = .ok h') : Identified db h' := by
  unfold Cred.turn at hrun
  split at hrun
  · rename_i hrunning
    split at hrun
    · obtain ⟨hauth, -, hevents, hcreds⟩ := actDIE_keeps hrun
      refine hid.keep hauth ⟨?_, ?_, ?_⟩ (by rw [hevents]; exact hid.events)
      all_goals rw [hcreds]
    · cases hrun
      exact hid.keep rfl ⟨rfl, rfl, rfl⟩ hid.events
    · exact hid.handle hok hrunning hrun
  · cases hrun
    exact hid

/-- Every action is called under the right identity, in every run whose packets all meet the
condition. -/
theorem rightIdentity_run {g : File.Global} {numMBufs numWBufs avail : Nat} {ok : Bool}
    {user : Option String} {ans : Answers} {task : Task} {h₀ : Handler} {is : List Input}
    (hstart : start db g numMBufs numWBufs avail ok user ans task = .ok (some h₀))
    (hguard : Guarded (turnRun db) (OnHandler (KeepsIdentity db)) (.ok h₀) is)
    (hrun : run (turnRun db) (.ok h₀) is = .ok h) : ∀ e ∈ h.events, RightIdentity db e := by
  have hstep : ∀ (r : Except Fault Handler) (i : Input), (∀ h, r = .ok h → Identified db h) →
      OnHandler (KeepsIdentity db) r i → ∀ h, turnRun db r i = .ok h → Identified db h := by
    intro r i hr hok h hturn
    obtain ⟨h', rfl, hturn⟩ := ok_of_bind hturn
    exact (hr h' rfl).turn (hok h' rfl) hturn
  have hfirst : ∀ h, (Except.ok h₀ : Except Fault Handler) = .ok h → Identified db h := by
    intro h heq
    cases heq
    obtain ⟨cr, auth, -, hcl, hevents, hnew, -⟩ := start_cases hstart
    refine ⟨⟨auth, hcl, hnew.stored, hnew.identity⟩, fun name hname => ?_,
      by rw [hevents]; exact List.forall_mem_nil _⟩
    have hwanted : wantedIdentity db ans h₀.creds task = some h₀.creds.identity :=
      (wantedIdentity_congr hnew.user).trans hnew.wanted
    simp only [wantedIdentity, hname] at hwanted
    exact hwanted
  exact (hguard.invariant hstep hfirst h hrun).events

end Identified

/-- Packets of both tasks, and the user of task 2 set for all. -/
def exPackets : List Input :=
  [⟨2, exAnswers exRoot exAnna, .other⟩, ⟨1, exAnswers exRoot exAnna, .file .flush rfl⟩,
    ⟨2, exAnswers exRoot exAnna, .other⟩, ⟨2, exAnswers exRoot exAnna, .setUser "anna"⟩,
    ⟨1, exAnswers exRoot exAnna, .other⟩]

theorem rightIdentity_run_both : ∃ h₀ h, exStart = .ok (some h₀) ∧
    run (turnRun exDb) (.ok h₀) exPackets = .ok h ∧ ∀ e ∈ h.events, RightIdentity exDb e := by
  refine ⟨_, _, rfl, rfl, ?_⟩
  exact @rightIdentity_run exDb _ File.exGlobal 1 16 1 true none (exAnswers exRoot exAnna) 1 _
    exPackets rfl (by decide +kernel) rfl

/-- A task that has been given another gid acts under the old one. -/
theorem not_rightIdentity_gid : ∃ h₀ h, exStart = .ok (some h₀) ∧
    run (turnRun exDb) (.ok h₀) [⟨2, exAnswers exRoot exAnna, .other⟩,
      ⟨2, exAnswers exRoot { exAnna with crRgid := 10 }, .other⟩] = .ok h ∧
    ¬ ∀ e ∈ h.events, RightIdentity exDb e := by
  refine ⟨_, _, rfl, rfl, fun hall => ?_⟩
  obtain ⟨auth, -, -, hwanted⟩ := hall _ List.mem_cons_self rfl
  exact absurd hwanted (by decide)

end Anfs.Cred
