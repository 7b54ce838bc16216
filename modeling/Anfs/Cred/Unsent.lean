import Anfs.Cred.Loop
import Anfs.File.Handles

/-!
# The credentials of cached data

The data in a write cache has been accepted by calls of `act_WRITE` since the cache was last
empty. Whatever is sent from it is sent by an action or by the flush of the main loop; the
`AUTH` in force there is the one of all these calls.
-/
namespace Anfs.Cred
open Anfs.Lib Anfs.Nfs Anfs.Buf

/-- The handle an action writes to. -/
def writesTo : File.Action → Option Int
  | .write id _ _ => some id
  | _ => none

/-- A call of `act_WRITE`: the handle and the `AUTH` in force. -/
def Event.accepted (e : Event) : List (Int × AUTH) :=
  match e.place, e.auth with
  | .dispatch ⟨_, _, .file a _⟩ _, some auth => (writesTo a).toList.map fun id => (id, auth)
  | _, _ => []

/-- The calls of `act_WRITE` on handles whose caches have not been empty since. -/
def unsent : List Event → List (Int × AUTH)
  | [] => []
  | e :: older => (e.accepted ++ unsent older).filter fun x => File.BufferedAt e.files.gFH x.1

/-- In all that has happened the `AUTH` in force was the one that the data in the caches was
accepted under, and it had not been destroyed. -/
def SentAsAccepted : List Event → Prop
  | [] => True
  | e :: older =>
      (∀ x ∈ unsent older, e.auth = some x.2 ∧ x.2.addr ∉ e.destroyed) ∧ SentAsAccepted older

/-- Data is sent as it was accepted, the `AUTH` of the data that is still cached is in force,
and all data in the caches is accounted for. -/
structure UnsentKept (h : Handler) : Prop where
  sent : SentAsAccepted h.events
  kept : ∀ x ∈ unsent h.events, h.clAuth = some x.2 ∧ x.2.addr ∉ h.auths.destroyed
  all : ∀ id, File.BufferedAt h.files.gFH id → ∃ auth, (id, auth) ∈ unsent h.events

/-- The invariant adds that the `AUTH` in force is not destroyed, and that the next one will
differ from those destroyed. -/
structure AuthKept (h : Handler) : Prop extends UnsentKept h where
  auth : ∃ auth, h.clAuth = some auth ∧ h.creds.crAuth = some auth ∧ auth.addr < h.auths.next ∧
    auth.addr ∉ h.auths.destroyed
  older : ∀ d ∈ h.auths.destroyed, d < h.auths.next

section Unsent
variable {db : Netdb} {i : Input} {h h' : Handler} {e : Event} {es : List Event}

theorem mem_unsent_cons {x : Int × AUTH} :
    x ∈ unsent (e :: es) ↔ (x ∈ e.accepted ∨ x ∈ unsent es) ∧ File.BufferedAt e.files.gFH x.1 := by
  simp only [unsent, List.mem_filter, List.mem_append, decide_eq_true_eq]

theorem accepted_auth {x : Int × AUTH} (hx : x ∈ e.accepted) : e.auth = some x.2 := by
  unfold Event.accepted at hx
  split at hx
  · rename_i hauth
    obtain ⟨id, -, rfl⟩ := List.mem_map.mp hx
    exact hauth
  · cases hx

/-- An event under the `AUTH` in force, of which the handler goes on with the files. -/
theorem AuthKept.event (hk : AuthKept h) (hauth : e.auth = h.clAuth)
    (hdest : e.destroyed = h.auths.destroyed)
    (hfiles : ∀ id, File.BufferedAt e.files.gFH id → File.BufferedAt h.files.gFH id ∨
      ∃ auth, (id, auth) ∈ e.accepted) :
    SentAsAccepted (e :: h.events) ∧
      (∀ x ∈ unsent (e :: h.events), h.clAuth = some x.2 ∧ x.2.addr ∉ h.auths.destroyed) ∧
      ∀ id, File.BufferedAt e.files.gFH id → ∃ auth, (id, auth) ∈ unsent (e :: h.events) := by
  refine ⟨⟨fun x hx => ?_, hk.sent⟩, fun x hx => ?_, fun id hid => ?_⟩
  · rw [hauth, hdest]
    exact hk.kept x hx
  · rcases (mem_unsent_cons.mp hx).1 with hnew | hold
    · have hx := accepted_auth hnew
      obtain ⟨auth, hcl, -, -, hlive⟩ := hk.auth
      rw [hauth, hcl] at hx
      obtain rfl := Option.some.inj hx
      exact ⟨hcl, hlive⟩
    · exact hk.kept x hold
  · rcases hfiles id hid with hbefore | ⟨auth, hnew⟩
    · obtain ⟨auth, hold⟩ := hk.all id hbefore
      exact ⟨auth, mem_unsent_cons.mpr ⟨.inr hold, hid⟩⟩
    · exact ⟨auth, mem_unsent_cons.mpr ⟨.inl hnew, hid⟩⟩

/-- No data gets into a cache, the credentials stay. -/
theorem AuthKept.same (hk : AuthKept h) (hauth : h'.clAuth = h.clAuth) (hauths : h'.auths = h.auths)
    (hcr : h'.creds.crAuth = h.creds.crAuth) (hevents : h'.events = h.events)
    (hfiles : ∀ id, File.BufferedAt h'.files.gFH id → File.BufferedAt h.files.gFH id) :
    AuthKept h' := by
  refine ⟨⟨?_, ?_, fun id hid => ?_⟩, ?_, ?_⟩
  · rw [hevents]
    exact hk.sent
  · rw [hevents, hauth, hauths]
    exact hk.kept
  · rw [hevents]
    exact hk.all id (hfiles id hid)
  · rw [hauth, hauths, hcr]
    exact hk.auth
  · rw [hauths]
    exact hk.older

theorem not_bufferedAt {fhs : List EFH} {id : Int}
    (hall : ∀ efh ∈ fhs, hasBufferedWData efh = false) :
    ¬ File.BufferedAt fhs id := by
  rintro ⟨efh, hmem, -, hbuf⟩
  rw [hall efh hmem] at hbuf
  cases hbuf

theorem actDIE_buffered {locked : Bool} (hrun : actDIE h locked = .ok h') {id : Int}
    (hbuf : File.BufferedAt h'.files.gFH id) : File.BufferedAt h.files.gFH id := by
  unfold actDIE at hrun
  split at hrun
  · obtain ⟨files, hflush, hrun⟩ := ok_of_bind hrun
    cases hrun
    exact absurd hbuf (not_bufferedAt (File.actFLUSH_left hflush).2)
  · cases hrun
    exact hbuf

/-- The call of an action puts data only where a call of `act_WRITE` is recorded. -/
theorem callFunc_buffered (hcl : h.clAuth ≠ none) (hrun : callFunc db i h = .ok h') {id : Int}
    (hbuf : File.BufferedAt h'.files.gFH id) :
    File.BufferedAt h.files.gFH id ∨ ∃ auth,
      (id, auth) ∈ Event.accepted ⟨.dispatch i h.creds, h.clAuth, h.auths.destroyed, h'.files⟩ := by
  obtain ⟨client, ans, pkt⟩ := i
  cases pkt with
  | timer =>
      obtain ⟨files, hflush, hrun⟩ := ok_of_bind hrun
      cases hrun
      exact absurd hbuf (not_bufferedAt (File.actFLUSH_left hflush).2)
  | file a sent =>
      obtain ⟨files, hstep, hrun⟩ := ok_of_bind hrun
      cases hrun
      rcases File.step_buffered hstep hbuf with hbefore | ⟨buf, num, rfl⟩
      · exact .inl hbefore
      · obtain ⟨auth, hauth⟩ := Option.ne_none_iff_exists'.mp hcl
        refine .inr ⟨auth, ?_⟩
        simp only [Event.accepted, hauth]
        exact List.mem_map.mpr ⟨id, List.mem_singleton.mpr rfl, rfl⟩
  | die locked => exact .inl (actDIE_buffered hrun hbuf)
  | setUser user => cases hrun; exact .inl hbuf
  | setUMask umask => cases hrun; exact .inl hbuf
  | setWriteBufferLimit limit => cases hrun; exact .inl hbuf
  | ioControl => cases hrun; exact .inl hbuf
  | other => cases hrun; exact .inl hbuf
  | unknown => cases hrun; exact .inl hbuf
  | quit locked => cases hrun; exact .inl hbuf

theorem AuthKept.dispatch (hk : AuthKept h)
    (hrun : Cred.dispatch db i h = .ok h') : AuthKept h' := by
  unfold Cred.dispatch at hrun
  obtain ⟨h₁, hcall, hrun⟩ := ok_of_bind hrun
  cases hrun
  obtain ⟨hauth, hauths, -, hcreds⟩ := callFunc_cases hcall
  have hcr : h₁.creds.crAuth = h.creds.crAuth := by
    rcases hcreds with hkeep | ⟨user, -, hset⟩
    · exact hkeep.auth
    · rw [hset]
      rcases crSetUser_cases db i.ans h.creds user with hsame | ⟨pw, -, -, hnew⟩
      · rw [hsame]
      · rw [hnew]
  have hcl : h.clAuth ≠ none := by
    obtain ⟨auth, hcl, -⟩ := hk.auth
    rw [hcl]
    exact Option.some_ne_none auth
  obtain ⟨hsent, hkept, hall⟩ := hk.event
    (e := ⟨.dispatch i h.creds, h.clAuth, h.auths.destroyed, h₁.files⟩) rfl rfl
    fun id => callFunc_buffered hcl hcall
  refine ⟨⟨hsent, ?_, hall⟩, ?_, ?_⟩
  · simp only [hauth, hauths]
    exact hkept
  · simp only [hauth, hauths, hcr]
    exact hk.auth
  · simp only [hauths]
    exact hk.older

/-- After the flush of the main loop nothing is cached, so the `AUTH` may be replaced. -/
theorem AuthKept.flushed {go : Bool} (hk : AuthKept h)
    (hf : Flushed db i h go h') : AuthKept h' := by
  obtain ⟨files, hflush, hgFH, hevents⟩ := hf.flushed
  have hempty : ∀ id, ¬ File.BufferedAt files.gFH id := fun id =>
    not_bufferedAt (File.actFLUSH_left hflush).2
  obtain ⟨hsent, -, -⟩ := hk.event (e := ⟨.flush, h.clAuth, h.auths.destroyed, files⟩) rfl rfl
    fun id hid => absurd hid (hempty id)
  have hnone : ∀ x, x ∉ unsent h'.events := by
    intro x hx
    rw [hevents] at hx
    exact hempty x.1 (mem_unsent_cons.mp hx).2
  rw [← hevents] at hsent
  have hkept : UnsentKept h' := by
    refine ⟨hsent, fun x hx => absurd hx (hnone x), fun id hid => ?_⟩
    rw [hgFH] at hid
    exact absurd hid (hempty id)
  obtain ⟨auth, hcl, hcr, hlt, hlive⟩ := hk.auth
  rcases hf.outcome with ⟨-, cr, auth', hkeep, hcl', hnew⟩ | ⟨-, hcl', hauths, hkeep⟩
  · have hold : ∀ d ∈ h'.auths.destroyed, d < h.auths.next := by
      intro d hd
      rw [hnew.destroyed, hkeep.auth, hcr] at hd
      rcases List.mem_cons.mp hd with rfl | hd
      · exact hlt
      · exact hk.older d hd
    refine ⟨hkept, ⟨auth', hcl', hnew.stored, ?_, fun hd => ?_⟩, fun d hd => ?_⟩
    · rw [hnew.addr, hnew.next]
      exact Nat.lt_succ_self _
    · rw [hnew.addr] at hd
      exact absurd (hold _ hd) (Nat.lt_irrefl _)
    · rw [hnew.next]
      exact Nat.lt_succ_of_lt (hold d hd)
  · refine ⟨hkept, ⟨auth, hcl'.trans hcl, hkeep.auth.trans hcr, ?_⟩, ?_⟩
    · rw [hauths]
      exact ⟨hlt, hlive⟩
    · rw [hauths]
      exact hk.older

theorem AuthKept.handle (hk : AuthKept h) (hrun : Cred.handle db i h = .ok h') : AuthKept h' := by
  unfold Cred.handle at hrun
  split at hrun
  · obtain ⟨⟨go, h₁⟩, hrefresh, hdone⟩ := ok_of_bind hrun
    have hcr : h.creds.crAuth ≠ none := by
      obtain ⟨auth, -, hcr, -⟩ := hk.auth
      rw [hcr]
      exact Option.some_ne_none auth
    have hk₁ : AuthKept h₁ := by
      rcases refreshAuth_cases hcr hrefresh with hkept | hflushed
      · rw [hkept.same]
        exact hk.same rfl rfl hkept.keeps.auth rfl fun _ => id
      · exact hk.flushed hflushed
    cases go with
    | true => exact hk₁.dispatch hdone
    | false => cases hdone; exact hk₁
  · exact hk.dispatch hrun

theorem AuthKept.turn (hk : AuthKept h) (hrun : Cred.turn db h i = .ok h') : AuthKept h' := by
  unfold Cred.turn at hrun
  split at hrun
  · split at hrun
    · obtain ⟨hauth, hauths, hevents, hcreds⟩ := actDIE_keeps hrun
      exact hk.same hauth hauths (by rw [hcreds]) hevents fun id => actDIE_buffered hrun
    · cases hrun
      exact hk.same rfl rfl rfl rfl fun _ => id
    · exact hk.handle hrun
  · cases hrun
    exact hk

/-- Cached data is sent with the credentials it was accepted under, in every run. -/
theorem unsentKept_run {g : File.Global} {numMBufs numWBufs avail : Nat} {ok : Bool}
    {user : Option String} {ans : Answers} {task : Task} {h₀ : Handler} {is : List Input}
    (hstart : start db g numMBufs numWBufs avail ok user ans task = .ok (some h₀))
    (hrun : run (turnRun db) (.ok h₀) is = .ok h) : UnsentKept h := by
  have hfirst : AuthKept h₀ := by
    obtain ⟨cr, auth, hinit, hcl, hevents, hnew, hnone⟩ := start_cases hstart
    have hdest : h₀.auths.destroyed = [] := by
      rw [hnew.destroyed, hnone]
      rfl
    have hfiles : h₀.files.gFH = [] := by
      unfold File.gInit at hinit
      obtain ⟨⟨done, pool⟩, -, hinit⟩ := ok_of_bind hinit
      rw [← Except.ok.inj hinit]
    refine ⟨⟨?_, ?_, ?_⟩, ⟨auth, hcl, hnew.stored, ?_, ?_⟩, ?_⟩
    · rw [hevents]
      trivial
    · rw [hevents]
      exact List.forall_mem_nil _
    · rw [hfiles]
      rintro id ⟨efh, hmem, -⟩
      cases hmem
    · rw [hnew.addr, hnew.next]
      exact Nat.lt_succ_self _
    · rw [hdest]
      exact List.not_mem_nil
    · rw [hdest]
      exact List.forall_mem_nil _
  have hstep : ∀ (r : Except Fault Handler) (i : Input), (∀ h, r = .ok h → AuthKept h) →
      ∀ h, turnRun db r i = .ok h → AuthKept h := by
    intro r i hr h hturn
    obtain ⟨h', rfl, hturn⟩ := ok_of_bind hturn
    exact (hr h' rfl).turn hturn
  have hall := run_invariant hstep (s := .ok h₀) (fun h heq => by cases heq; exact hfirst) is
  exact (hall h hrun).toUnsentKept

end Unsent

/-- Task 1 writes to a new file, then task 2 acts. -/
def exCached : List Input :=
  [⟨1, exAnswers exRoot exAnna, .file (.openFile File.MODE_NEWFILE 0 0 1 true true) rfl⟩,
    ⟨1, exAnswers exRoot exAnna, .file (.write 1 (fun _ => 7) 3) rfl⟩,
    ⟨2, exAnswers exRoot exAnna, .other⟩]

theorem unsentKept_run_two : ∃ h₀ h, exStart = .ok (some h₀) ∧
    run (turnRun exDb) (.ok h₀) exCached = .ok h ∧ UnsentKept h := by
  have hends : (exStart.toOption.join.any fun h₀ =>
      (run (turnRun exDb) (.ok h₀) exCached).toOption.isSome) = true := by decide +kernel
  cases hstart : exStart with
  | error f => rw [hstart] at hends; cases hends
  | ok o =>
      cases o with
      | none => rw [hstart] at hends; cases hends
      | some h₀ =>
          rw [hstart] at hends
          replace hends : (run (turnRun exDb) (.ok h₀) exCached).toOption.isSome = true := hends
          cases hrun : run (turnRun exDb) (.ok h₀) exCached with
          | error f => rw [hrun] at hends; cases hends
          | ok h => exact ⟨h₀, h, rfl, hrun, unsentKept_run hstart hrun⟩

end Anfs.Cred
