import Anfs.Cred.Auth
import Anfs.File.Accounts

/-!
# The main loop

`nfs_handler.c`: mounting and the main loop, with the credentials and the actions on open
files. Actions that touch neither are one packet, `other`.
-/
namespace Anfs.Cred
open Anfs.Lib Anfs.Nfs Anfs.Buf

/-- `timer` and `updateAuth` are the loop's own. -/
def fromClient : File.Action → Bool
  | .timer => false
  | .updateAuth _ => false
  | _ => true

/-- A packet. `setUser`, `setUMask`, `setWriteBufferLimit` and `ioControl` are commands to
`act_IOCONTROL`, `unknown` is one that `act_Prepare` does not find in its table, `quit` stands
for the signal to stop; `locked` tells whether the volume has locks. -/
inductive Packet
  | timer
  | setUser (user : String)
  | setUMask (umask : UInt32)
  | setWriteBufferLimit (limit : Int)
  | ioControl
  | file (a : File.Action) (sent : fromClient a = true)
  | die (locked : Bool)
  | other
  | unknown
  | quit (locked : Bool)

/-- A packet with its sender, and what the system answers while it is handled. -/
structure Input where
  client : Task
  ans : Answers
  pkt : Packet

/-- The main loop acts in two places: it flushes before it changes the `AUTH`, and it calls
the action of a packet. -/
inductive Place
  | flush
  | dispatch (i : Input) (creds : CRED)

/-- What happened: where, under which `AUTH`, with which destroyed, and the files afterwards. -/
structure Event where
  place : Place
  auth : Option AUTH
  destroyed : List Nat
  files : File.Global

/-- The handler. `events` is not of the program, it keeps what happened, the newest first. -/
structure Handler where
  files : File.Global
  creds : CRED
  auths : Auths
  clAuth : Option AUTH
  running : Bool
  events : List Event

/-- The packets whose action is not internal and not `act_IOCONTROL`. -/
def Packet.checked : Packet → Bool
  | .file .. | .die _ | .other => true
  | .timer | .setUser _ | .setUMask _ | .setWriteBufferLimit _ | .ioControl | .unknown | .quit _ =>
      false

/-- `cr_Init`, and what `ParseArgs` does about the user. -/
def parseUser (db : Netdb) (ans : Answers) : Option String → Bool × CRED
  | some user => crSetUser db ans crInit user
  | none => (true, crInit)

/-- `G_Init`, and the part of `G_Mount` about the `AUTH`. -/
def start (db : Netdb) (g : File.Global) (numMBufs numWBufs avail : Nat) (ok : Bool)
    (user : Option String) (ans : Answers) (task : Task) : Except Fault (Option Handler) := do
  let files ← File.gInit g numMBufs numWBufs avail ok
  let (ok, creds) := parseUser db ans user
  if ok then
    let (ok, creds, auths) := crUpdateAuth db ans creds ⟨0, []⟩ task
    .ok (if ok then some ⟨files, creds, auths, creds.crAuth, true, []⟩ else none)
  else .ok none

/-- The `AUTH` update before the call of an action, data being flushed with the old one; the result
tells whether to call it. -/
def refreshAuth (db : Netdb) (i : Input) (h : Handler) : Except Fault (Bool × Handler) :=
  let creds := crUpdateCreds i.ans h.creds i.client
  let (needed, creds) := crAuthNeedsUpdate i.ans creds i.client
  if needed then do
    let files ← File.actFLUSH h.files
    let events := ⟨.flush, h.clAuth, h.auths.destroyed, files⟩ :: h.events
    let (ok, creds, auths) := crUpdateAuth db i.ans creds h.auths i.client
    if ok then
      .ok (true, { h with
        files := files, creds := creds, auths := auths, clAuth := creds.crAuth, events := events })
    else
      .ok (false, { h with
        files := files.setRes File.DOSFALSE errorNoFreeStore
        creds := creds
        auths := auths
        events := events })
  else .ok (true, { h with creds := creds })

def actDIE (h : Handler) (locked : Bool) : Except Fault Handler :=
  if ¬ locked ∧ h.files.gFH = [] then do
    let files ← File.actFLUSH h.files
    .ok { h with files := files, running := false }
  else .ok { h with files := h.files.setRes File.DOSFALSE errorObjectInUse }

/-- The call of the action of a packet. -/
def callFunc (db : Netdb) (i : Input) (h : Handler) : Except Fault Handler :=
  match i.pkt with
  | .timer => do
      let files ← File.actFLUSH h.files
      .ok { h with files := files }
  | .setUser user => .ok { h with creds := (crSetUser db i.ans h.creds user).2 }
  | .setUMask umask => .ok { h with creds := crSetUMask h.creds umask }
  | .setWriteBufferLimit limit =>
      .ok { h with
        files := { h.files with
          pool := { h.files.pool with gWriteBufferLimit := max 0 (min 10000 limit) } } }
  | .file a _ => do
      let files ← File.step h.files a
      .ok { h with files := files }
  | .die locked => actDIE h locked
  | .ioControl | .other | .unknown | .quit _ => .ok h

/-- The call of an action, which is recorded. -/
def dispatch (db : Netdb) (i : Input) (h : Handler) : Except Fault Handler := do
  let h' ← callFunc db i h
  .ok { h' with events := ⟨.dispatch i h.creds, h.clAuth, h.auths.destroyed, h'.files⟩ :: h.events }

/-- The main loop on a packet for which `act_Prepare` finds an action. -/
def handle (db : Netdb) (i : Input) (h : Handler) : Except Fault Handler :=
  if i.pkt.checked then do
    let (go, h) ← refreshAuth db i h
    if go then dispatch db i h else .ok h
  else dispatch db i h

/-- One turn of the main loop. -/
def turn (db : Netdb) (h : Handler) (i : Input) : Except Fault Handler :=
  if h.running then
    match i.pkt with
    | .quit locked => actDIE h locked
    | .unknown => .ok { h with files := h.files.setRes File.DOSFALSE errorActionNotKnown }
    | _ => handle db i h
  else .ok h

/-- A turn of a run: a fault ends it. -/
def turnRun (db : Netdb) (r : Except Fault Handler) (i : Input) : Except Fault Handler :=
  r >>= fun h => turn db h i

/-- The fields an `AUTH` is made from, the user and the `AUTH` are kept. -/
structure KeepsAuth (cr cr' : CRED) : Prop where
  user : cr'.crUserName = cr.crUserName
  identity : cr'.identity = cr.identity
  auth : cr'.crAuth = cr.crAuth

section Turn
variable {db : Netdb} {i : Input} {ans : Answers} {cr cr' : CRED}
  {auths auths' : Auths} {client : Task}
  {h h' : Handler}

theorem KeepsAuth.trans {cr'' : CRED} (hk : KeepsAuth cr cr') (hk' : KeepsAuth cr' cr'') :
    KeepsAuth cr cr'' :=
  ⟨hk'.user.trans hk.user, hk'.identity.trans hk.identity, hk'.auth.trans hk.auth⟩

theorem crUpdateCreds_keeps (ans : Answers) (cr : CRED) (client : Task) :
    KeepsAuth cr (crUpdateCreds ans cr client) ∧
      (crUpdateCreds ans cr client).crClientCache = cr.crClientCache := by
  unfold crUpdateCreds
  split
  · cases ans.credentials client with
    | some creds => exact ⟨⟨rfl, rfl, rfl⟩, rfl⟩
    | none => exact ⟨⟨rfl, rfl, rfl⟩, rfl⟩
  · exact ⟨⟨rfl, rfl, rfl⟩, rfl⟩

/-- An update is not needed for a client that is cached and has the euid of `cr_UID`, or when
there is a user. -/
theorem crAuthNeedsUpdate_false (h : crAuthNeedsUpdate ans cr client = (false, cr')) :
    cr' = cr ∧ (cr.crUserName = none → cr.crClientCache = some client ∧
      ∀ creds ∈ ans.credentials client, creds.crEuid = cr.crUID) := by
  unfold crAuthNeedsUpdate at h
  split at h
  · cases (Prod.mk.inj h).1
  · split at h
    · rename_i huser
      exact ⟨(Prod.mk.inj h).2.symm, fun hno => absurd hno huser⟩
    · split at h
      · cases (Prod.mk.inj h).1
      · rename_i hclient
        have hclient := Classical.not_not.mp hclient
        cases hcreds : ans.credentials client with
        | none =>
            rw [hcreds] at h
            exact ⟨(Prod.mk.inj h).2.symm, fun _ => ⟨hclient, nofun⟩⟩
        | some creds =>
            rw [hcreds] at h
            simp only at h
            split at h
            · cases (Prod.mk.inj h).1
            · rename_i heuid
              refine ⟨(Prod.mk.inj h).2.symm, fun _ => ⟨hclient, fun c hc => ?_⟩⟩
              obtain rfl := Option.some.inj hc
              exact Classical.not_not.mp heuid

/-- When an update is needed and there is an `AUTH`, `cr_UpdateAuth` makes a new one. -/
theorem crAuthNeedsUpdate_true (hauth : cr.crAuth ≠ none)
    (h : crAuthNeedsUpdate ans cr client = (true, cr')) :
    KeepsAuth cr cr' ∧ cr.crUserName = none ∧ cr'.crClientCache ≠ some client := by
  unfold crAuthNeedsUpdate at h
  rw [if_neg hauth] at h
  split at h
  · cases (Prod.mk.inj h).1
  · rename_i huser
    have huser := Classical.not_not.mp huser
    split at h
    · rename_i hclient
      obtain rfl := (Prod.mk.inj h).2
      exact ⟨⟨rfl, rfl, rfl⟩, huser, hclient⟩
    · split at h
      · split at h
        · obtain rfl := (Prod.mk.inj h).2
          exact ⟨⟨rfl, rfl, rfl⟩, huser, nofun⟩
        · cases (Prod.mk.inj h).1
      · cases (Prod.mk.inj h).1

/-- A successful `cr_SetUser` changes the identity fields, and not the `AUTH`. -/
theorem crSetUser_cases (db : Netdb) (ans : Answers) (cr : CRED) (user : String) :
    (crSetUser db ans cr user).2 = cr ∨
      ∃ pw, ans.memOk = true ∧ getpwnam db ans user = some pw ∧
        (crSetUser db ans cr user).2 = { cr with
          crUserName := some user, crUID := pw.pwUid, crGID :=
            pw.pwGid, crClientCache := none } := by
  unfold crSetUser
  split
  · rename_i hmem
    cases hpw : getpwnam db ans user with
    | none => exact .inl rfl
    | some pw => exact .inr ⟨pw, hmem, rfl, rfl⟩
  · exact .inl rfl

/-- `cr_UpdateAuth` when it calls `cr_SetAuth`. -/
theorem crUpdateAuth_renews
    (hneeds : cr.crAuth = none ∨ (cr.crUserName = none ∧ cr.crClientCache ≠ some client))
    {ok : Bool}
    (h : crUpdateAuth db ans cr auths client = (ok, cr', auths')) :
    (ok = true ∧ ∃ auth, Renewed db ans client cr auths auth cr' auths') ∨
      (ok = false ∧ auths' = auths ∧ (cr.crUserName = none → cr' = cr)) := by
  unfold crUpdateAuth at h
  rw [if_pos hneeds] at h
  cases hset : crSetAuth db ans cr auths client with
  | mk auth rest =>
      obtain ⟨cr₁, auths₁⟩ := rest
      rw [hset] at h
      simp only [Prod.mk.injEq] at h
      obtain ⟨rfl, rfl, rfl⟩ := h
      cases auth with
      | some auth => exact .inl ⟨rfl, auth, crSetAuth_some hset⟩
      | none =>
          obtain ⟨hauths, -, -, hsame⟩ := crSetAuth_none hset
          exact .inr ⟨rfl, hauths, hsame⟩

/-- The handler starts with an `AUTH` of the identity its credentials have. -/
theorem start_cases {g : File.Global} {numMBufs numWBufs avail : Nat} {ok : Bool}
    {user : Option String}
    {task : Task} (hstart : start db g numMBufs numWBufs avail ok user ans task = .ok (some h)) :
    ∃ cr auth, File.gInit g numMBufs numWBufs avail ok = .ok h.files ∧ h.clAuth = some auth ∧
      h.events = [] ∧ Renewed db ans task cr ⟨0, []⟩ auth h.creds h.auths ∧ cr.crAuth = none := by
  unfold start at hstart
  obtain ⟨files, hinit, hstart⟩ := ok_of_bind hstart
  cases hparse : parseUser db ans user with
  | mk parsed cr =>
      simp only [hparse] at hstart
      cases parsed with
      | false => cases hstart
      | true =>
          have hnone : cr.crAuth = none := by
            cases user with
            | none => cases hparse; rfl
            | some user =>
                have hcr : (crSetUser db ans crInit user).2 = cr := congrArg Prod.snd hparse
                rcases crSetUser_cases db ans crInit user with hsame | ⟨pw, -, -, hnew⟩
                · rw [← hcr, hsame]; rfl
                · rw [← hcr, hnew]; rfl
          simp only [if_true] at hstart
          cases hupdate : crUpdateAuth db ans cr ⟨0, []⟩ task with
          | mk ok rest =>
              obtain ⟨cr', auths'⟩ := rest
              simp only [hupdate] at hstart
              rcases crUpdateAuth_renews (.inl hnone) hupdate with ⟨rfl, auth, hnew⟩ | ⟨rfl, -, -⟩
              · simp only [if_true] at hstart
                cases hstart
                exact ⟨cr, auth, hinit, hnew.stored, rfl, hnew, hnone⟩
              · cases hstart

/-- The flush of the main loop before a new `AUTH`, and what comes of it. -/
structure Flushed (db : Netdb) (i : Input) (h : Handler) (go : Bool) (h' : Handler) : Prop where
  user : h.creds.crUserName = none
  flushed : ∃ files, File.actFLUSH h.files = .ok files ∧ h'.files.gFH = files.gFH ∧
    h'.events = ⟨.flush, h.clAuth, h.auths.destroyed, files⟩ :: h.events
  running : h'.running = h.running
  outcome : (go = true ∧ ∃ cr auth, KeepsAuth h.creds cr ∧ h'.clAuth = some auth ∧
      Renewed db i.ans i.client cr h.auths auth h'.creds h'.auths) ∨
    (go = false ∧ h'.clAuth = h.clAuth ∧ h'.auths = h.auths ∧ KeepsAuth h.creds h'.creds)

/-- The `AUTH` is kept for a user, and for a client that is cached with its euid. -/
structure Kept (i : Input) (h : Handler) (go : Bool) (h' : Handler) : Prop where
  go : go = true
  same : h' = { h with creds := h'.creds }
  keeps : KeepsAuth h.creds h'.creds
  cached : h.creds.crUserName = none → h.creds.crClientCache = some i.client ∧
    ∀ creds ∈ i.ans.credentials i.client, creds.crEuid = h.creds.crUID

theorem refreshAuth_cases {go : Bool} (hauth : h.creds.crAuth ≠ none)
    (hrun : refreshAuth db i h = .ok (go, h')) : Kept i h go h' ∨ Flushed db i h go h' := by
  obtain ⟨hkeep, hcache⟩ := crUpdateCreds_keeps i.ans h.creds i.client
  have hauth' : (crUpdateCreds i.ans h.creds i.client).crAuth ≠ none := by rwa [hkeep.auth]
  unfold refreshAuth at hrun
  cases hneeds : crAuthNeedsUpdate i.ans (crUpdateCreds i.ans h.creds i.client) i.client with
  | mk needed cr =>
      simp only [hneeds] at hrun
      cases needed with
      | false =>
          simp only [Bool.false_eq_true, if_false] at hrun
          obtain ⟨rfl, hcached⟩ := crAuthNeedsUpdate_false hneeds
          cases hrun
          have huid : (crUpdateCreds i.ans h.creds i.client).crUID = h.creds.crUID :=
            congrArg Identity.uid hkeep.identity
          rw [hkeep.user, hcache, huid] at hcached
          exact .inl ⟨rfl, rfl, hkeep, hcached⟩
      | true =>
          obtain ⟨hkeep', huser, hclient⟩ := crAuthNeedsUpdate_true hauth' hneeds
          have hall := hkeep.trans hkeep'
          simp only [if_true] at hrun
          obtain ⟨files, hflush, hdone⟩ := ok_of_bind hrun
          cases hupdate : crUpdateAuth db i.ans cr h.auths i.client with
          | mk ok rest =>
              obtain ⟨cr', auths'⟩ := rest
              simp only [hupdate] at hdone
              have huser' := hkeep'.user.trans huser
              rcases crUpdateAuth_renews (.inr ⟨huser', hclient⟩) hupdate with
                ⟨rfl, auth, hnew⟩ | ⟨rfl, rfl, hsame⟩
              · cases hdone
                exact .inr ⟨hkeep.user ▸ huser, ⟨files, hflush, rfl, rfl⟩, rfl,
                  .inl ⟨rfl, cr, auth, hall, hnew.stored, hnew⟩⟩
              · obtain rfl := hsame huser'
                cases hdone
                exact .inr ⟨hkeep.user ▸ huser, ⟨files, hflush, rfl, rfl⟩, rfl,
                  .inr ⟨rfl, rfl, rfl, hall⟩⟩

theorem actDIE_keeps {locked : Bool} (hrun : actDIE h locked = .ok h') :
    h'.clAuth = h.clAuth ∧ h'.auths = h.auths ∧ h'.events = h.events ∧ h'.creds = h.creds := by
  unfold actDIE at hrun
  split at hrun
  · obtain ⟨files, -, hrun⟩ := ok_of_bind hrun
    cases hrun
    exact ⟨rfl, rfl, rfl, rfl⟩
  · cases hrun
    exact ⟨rfl, rfl, rfl, rfl⟩

/-- The call of an action keeps the `AUTH` and what happened; `SET USER` and `SET UMASK` change
credentials. -/
theorem callFunc_cases (hrun : callFunc db i h = .ok h') :
    h'.clAuth = h.clAuth ∧ h'.auths = h.auths ∧ h'.events = h.events ∧
      (KeepsAuth h.creds h'.creds ∨
        ∃ user, i.pkt = .setUser user ∧ h'.creds = (crSetUser db i.ans h.creds user).2) := by
  have hrefl : KeepsAuth h.creds h.creds := ⟨rfl, rfl, rfl⟩
  unfold callFunc at hrun
  cases hpkt : i.pkt with
  | timer =>
      rw [hpkt] at hrun
      obtain ⟨files, -, hrun⟩ := ok_of_bind hrun
      cases hrun
      exact ⟨rfl, rfl, rfl, .inl hrefl⟩
  | setUser user =>
      rw [hpkt] at hrun
      cases hrun
      exact ⟨rfl, rfl, rfl, .inr ⟨user, rfl, rfl⟩⟩
  | setUMask umask =>
      rw [hpkt] at hrun
      cases hrun
      exact ⟨rfl, rfl, rfl, .inl ⟨rfl, rfl, rfl⟩⟩
  | setWriteBufferLimit limit =>
      rw [hpkt] at hrun
      cases hrun
      exact ⟨rfl, rfl, rfl, .inl hrefl⟩
  | file a sent =>
      rw [hpkt] at hrun
      obtain ⟨files, -, hrun⟩ := ok_of_bind hrun
      cases hrun
      exact ⟨rfl, rfl, rfl, .inl hrefl⟩
  | die locked =>
      rw [hpkt] at hrun
      simp only [actDIE] at hrun
      split at hrun
      · obtain ⟨files, -, hrun⟩ := ok_of_bind hrun
        cases hrun
        exact ⟨rfl, rfl, rfl, .inl hrefl⟩
      · cases hrun
        exact ⟨rfl, rfl, rfl, .inl hrefl⟩
  | ioControl => rw [hpkt] at hrun; cases hrun; exact ⟨rfl, rfl, rfl, .inl hrefl⟩
  | other => rw [hpkt] at hrun; cases hrun; exact ⟨rfl, rfl, rfl, .inl hrefl⟩
  | unknown => rw [hpkt] at hrun; cases hrun; exact ⟨rfl, rfl, rfl, .inl hrefl⟩
  | quit locked => rw [hpkt] at hrun; cases hrun; exact ⟨rfl, rfl, rfl, .inl hrefl⟩

end Turn

/-- A database with one user. -/
def exDb : Netdb := ⟨fun name => if name = "anna" then some ⟨7, 8⟩ else none, [⟨9, ["anna"]⟩]⟩

/-- The system while tasks 1 and 2 have these credentials, and no other task has any. -/
def exAnswers (creds₁ creds₂ : UserGroupCredentials) : Answers :=
  ⟨fun task => if task = 1 then some creds₁ else if task = 2 then some creds₂ else none,
    true, true, true⟩

def exRoot : UserGroupCredentials := ⟨0, 0, [], 0⟩

def exAnna : UserGroupCredentials := ⟨7, 8, [9], 0⟩

/-- Mounting by task 1. -/
def exStart : Except Fault (Option Handler) :=
  start exDb File.exGlobal 1 16 1 true none (exAnswers exRoot exAnna) 1

end Anfs.Cred
