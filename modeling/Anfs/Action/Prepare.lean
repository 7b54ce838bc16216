import Anfs.Action.Index
import Anfs.Cache.Owned
import Anfs.Cred.Auth
import Anfs.Nfs.Error

/-!
# A packet between its arrival and its reply

`act_Prepare` turns the `BPTR` arguments of a packet into addresses in place; the main loop
saves the arguments before and stores them back behind the call of the action. The actions
are a parameter: whatever one does to the global data, to the packet and to the two caches,
it does to caches whose entries are counted.
-/
namespace Anfs.Action
open Anfs.Cache Anfs.Cred Anfs.Nfs

def DOSTRUE : Int := -1
def DOSFALSE : Int := 0

structure DosPacket where
  dpType : Int
  dpArg1 : UInt32
  dpArg2 : UInt32
  dpArg3 : UInt32
  dpArg4 : UInt32
  dpPort : Task
  dpRes1 : Int
  dpRes2 : Int
  deriving DecidableEq

def BP1 : UInt32 := 1
def BP2 : UInt32 := 2
def BP3 : UInt32 := 4
def BP4 : UInt32 := 8
/-- Internal or pseudo packet. -/
def INTF : UInt32 := 64
/-- Write flag, for the software write protection. -/
def WF : UInt32 := 128

/-- The functions in the table; `func` are those the main loop does not tell apart. -/
inductive ActionFunc (F : Type)
  | actISWRITEPROTECTED
  | actIOCONTROL
  | func (f : F)
  deriving DecidableEq

/-- A cache whose entries are counted. -/
abbrev Table := { t : FTHashTable UInt32 Nat // t.Sound }

/-- The data that the main loop reads and writes. `rest` is what only the actions know. -/
structure Global (σ : Type) where
  gIsWriteProtected : Bool
  gRes1 : Int
  gRes2 : Int
  gDoReply : Bool
  gPort : Task
  gCreds : CRED
  auths : Auths
  clAuth : Option AUTH
  gAttrCache : Table
  gDirCache : Table
  rest : σ

/-- The actions, and `act_FLUSH`. -/
structure Actions (F σ : Type) where
  call : ActionFunc F → Global σ → DosPacket → Int × Global σ × DosPacket
  flushProcs : σ → σ

/-- What the system answers during a turn, with the clock readings of the two unlockings. -/
structure Input where
  db : Netdb
  ans : Answers
  attrsNow : UInt32
  dirNow : UInt32

variable {F σ : Type} {n : Nat}

def Global.setRes1 (g : Global σ) (res1 : Int) : Global σ := { g with gRes1 := res1 }

def Global.setRes (g : Global σ) (res1 res2 : Int) : Global σ :=
  { g with gRes1 := res1, gRes2 := res2 }

def Actions.actFLUSH (acts : Actions F σ) (g : Global σ) : Global σ :=
  { g with rest := acts.flushProcs g.rest }.setRes1 DOSTRUE

/-- The call of an action. -/
def Actions.run (acts : Actions F σ) (func : ActionFunc F) (g : Global σ) (pkt : DosPacket) :
    Int × Global σ × DosPacket :=
  match func with
  | .actISWRITEPROTECTED => (DOSFALSE, g.setRes DOSFALSE errorDiskWriteProtected, pkt)
  | func => acts.call func g pkt

def MYBADDR (a : UInt32) : UInt32 := a <<< 2

/-- The conversion of an argument that the flag `bp` marks. -/
def convert (bpArgs bp a : UInt32) : UInt32 := if bpArgs &&& bp ≠ 0 then MYBADDR a else a

/-- The arguments converted as the row says. -/
def DosPacket.converted (pkt : DosPacket) (bpArgs : UInt32) : DosPacket :=
  { pkt with
    dpArg1 := convert bpArgs BP1 pkt.dpArg1
    dpArg2 := convert bpArgs BP2 pkt.dpArg2
    dpArg3 := convert bpArgs BP3 pkt.dpArg3
    dpArg4 := convert bpArgs BP4 pkt.dpArg4 }

/-- The row of the packet; `none`: the search leaves the index or the table. -/
def Dispatch.row (d : Dispatch F n) (action : Int) : Option (Option (ATEntry F)) :=
  if action = 'R'.toNat then some d.atEntryRead
  else if action = 'W'.toNat then some d.atEntryWrite
  else actLookup d action

/-- `act_Prepare`: the function, whether the packet is internal, and the packet. -/
def actPrepare (d : Dispatch (ActionFunc F) n) (g : Global σ) (pkt : DosPacket) :
    Option (Option (ActionFunc F × Bool) × DosPacket) := do
  match ← d.row pkt.dpType with
  | none => some (none, pkt)
  | some ent =>
      let bpArgs := ent.ateBPArgs
      let internal := decide (bpArgs &&& INTF ≠ 0)
      if g.gIsWriteProtected ∧ bpArgs &&& WF ≠ 0 then
        some (some (.actISWRITEPROTECTED, internal), pkt)
      else some (some (ent.ateFunc, internal), pkt.converted bpArgs)

def Global.setCreds (g : Global σ) (creds : CRED) : Global σ := { g with gCreds := creds }

/-- `cr_UpdateAuth` in the main loop, and what comes of it. -/
def Global.updateAuth (i : Input) (g : Global σ) (task : Task) : Bool × Global σ :=
  let r := crUpdateAuth i.db i.ans g.gCreds g.auths task
  let g := { g.setCreds r.2.1 with auths := r.2.2 }
  if r.1 then (true, { g with clAuth := r.2.1.crAuth })
  else (false, g.setRes DOSFALSE errorNoFreeStore)

/-- The update of the credentials, data being flushed with the old ones; the result tells whether
`Func` is called. -/
def Global.refresh (acts : Actions F σ) (i : Input) (g : Global σ) (task : Task) :
    Bool × Global σ :=
  let needs := crAuthNeedsUpdate i.ans (crUpdateCreds i.ans g.gCreds task) task
  let g := g.setCreds needs.2
  if needs.1 then (acts.actFLUSH g).updateAuth i task else (true, g)

/-- `attrs_UnLockAll` or `dc_UnLockAll`. -/
def Table.unLockAll (t : Table) (now : UInt32) : Table :=
  match h : t.val.fthashUnLockAll now with
  | some r => ⟨r.1, by
      obtain ⟨t', out, hrun, hmoved, -⟩ := FTHashTable.fthashUnLockAll_spec t.property.toCounted now
      rw [h] at hrun
      obtain rfl := Option.some.inj hrun
      exact hmoved.sound⟩
  | none => t

/-- The arguments of the packet as they were saved. -/
def DosPacket.restored (pkt saved : DosPacket) : DosPacket :=
  { pkt with
    dpArg1 := saved.dpArg1, dpArg2 := saved.dpArg2, dpArg3 := saved.dpArg3
    dpArg4 := saved.dpArg4 }

/-- A turn: the global data behind it, whether an action was executed, and the packet as it
was replied. -/
structure Turn (σ : Type) where
  g : Global σ
  executed : Bool
  reply : Option DosPacket

def Global.unLockAll (i : Input) (g : Global σ) : Global σ :=
  { g with
    gAttrCache := g.gAttrCache.unLockAll i.attrsNow
    gDirCache := g.gDirCache.unLockAll i.dirNow }

/-- The call of the action, and what follows it. -/
def execute (acts : Actions F σ) (i : Input) (func : ActionFunc F) (g : Global σ)
    (saved pkt : DosPacket) : Global σ × DosPacket :=
  let r := acts.run func g pkt
  let g := r.2.1.unLockAll i
  (if r.1 = DOSTRUE then g.setRes1 r.1 else g, r.2.2.restored saved)

/-- `G_ReplyPkt`. -/
def replyPkt (g : Global σ) (pkt : DosPacket) : DosPacket :=
  { pkt with dpPort := g.gPort, dpRes1 := g.gRes1, dpRes2 := g.gRes2 }

/-- The end of a turn. -/
def finishTurn (executed : Bool) (g : Global σ) (pkt : DosPacket) : Turn σ :=
  ⟨g, executed, if g.gDoReply then some (replyPkt g pkt) else none⟩

/-- The main loop for a packet `pkt` that `act_Prepare` has turned into `prepared`. -/
def callFunc (acts : Actions F σ) [DecidableEq F] (i : Input) (func : ActionFunc F)
    (internal : Bool) (g : Global σ) (pkt prepared : DosPacket) : Turn σ :=
  let r := if ¬ internal ∧ func ≠ .actIOCONTROL then g.refresh acts i prepared.dpPort else (true, g)
  if r.1 then
    let out := execute acts i func r.2 pkt prepared
    finishTurn true out.1 out.2
  else finishTurn false r.2 prepared

/-- The body of the main loop for a packet that arrived. -/
def turn (acts : Actions F σ) (d : Dispatch (ActionFunc F) n) [DecidableEq F] (i : Input)
    (g : Global σ) (pkt : DosPacket) : Option (Turn σ) := do
  let g := { g with gDoReply := true }
  match ← actPrepare d g pkt with
  | (none, prepared) => some (finishTurn false (g.setRes DOSFALSE errorActionNotKnown) prepared)
  | (some (func, internal), prepared) => some (callFunc acts i func internal g pkt prepared)

/-- `act_Init` has succeeded. -/
structure Ready (d : Dispatch F n) : Prop where
  ascending : d.actions.Pairwise (· < ·)
  complete : ∃ es stop, Complete d es stop
  read : d.atEntryRead = d.find 'R'.toNat
  write : d.atEntryWrite = d.find 'W'.toNat

theorem actInit_ready (d : Dispatch F n) (hn : 3 ≤ n) (hne : d.actionTable ≠ [])
    (hasc : d.actions.Pairwise (· < ·)) (hend : ∀ a ∈ d.actions, a < 2147483647)
    (hfits : blocks d.actions + 1 < n) :
    ∃ d', actInit d = some (true, d') ∧ d'.actionTable = d.actionTable ∧ Ready d' := by
  obtain ⟨d', hinit, htable, hread, hwrite, hcomp⟩ := actInit_accepts d hn hne hasc hend hfits
  have hfind : d'.find = d.find := by
    unfold Dispatch.find
    rw [htable]
  refine ⟨d', hinit, htable, ?_, hcomp, hfind ▸ hread, hfind ▸ hwrite⟩
  unfold Dispatch.actions
  rwa [htable]

theorem Ready.row_eq {d : Dispatch F n} (hd : Ready d) (action : Int) :
    d.row action = some (d.find action) := by
  obtain ⟨es, stop, hcomp⟩ := hd.complete
  unfold Dispatch.row
  by_cases hr : action = 'R'.toNat
  · rw [if_pos hr, hd.read, hr]
  · rw [if_neg hr]
    by_cases hw : action = 'W'.toNat
    · rw [if_pos hw, hd.write, hw]
    · rw [if_neg hw]
      exact hcomp.actLookup_eq hd.ascending action

theorem Table.settled_unLockAll (t : Table) (now : UInt32) : (t.unLockAll now).val.Settled := by
  obtain ⟨t', out, hrun, -, hsettled⟩ :=
    FTHashTable.fthashUnLockAll_spec t.property.toCounted now
  unfold Table.unLockAll
  split
  · rename_i r h
    rw [h] at hrun
    obtain rfl := Option.some.inj hrun
    exact hsettled
  · rename_i h
    rw [h] at hrun
    cases hrun

theorem MYBADDR_eq_mul (a : UInt32) : MYBADDR a = a * 4 := by
  rw [← UInt32.toNat_inj]
  simp [MYBADDR, Nat.shiftLeft_eq]

/-- A converted argument is the same word only when it is a null pointer: 3 has an inverse
among the words. -/
theorem MYBADDR_eq_self_iff (a : UInt32) : MYBADDR a = a ↔ a = 0 := by
  rw [MYBADDR_eq_mul]
  constructor
  · intro h
    have h3 : a * 3 = 0 := by grind
    have hinv : a = a * 3 * 2863311531 := by grind
    rw [hinv, h3]
    rfl
  · rintro rfl
    rfl

theorem convert_eq_self_iff (bpArgs bp a : UInt32) :
    convert bpArgs bp a = a ↔ (bpArgs &&& bp ≠ 0 → a = 0) := by
  unfold convert
  split
  · rename_i h
    rw [MYBADDR_eq_self_iff]
    exact ⟨fun ha _ => ha, fun ha => ha h⟩
  · rename_i h
    exact iff_of_true rfl fun h' => absurd h' h

def DosPacket.args (pkt : DosPacket) : List UInt32 :=
  [pkt.dpArg1, pkt.dpArg2, pkt.dpArg3, pkt.dpArg4]

/-- Every argument that the row converts is a null pointer. -/
def DosPacket.Unchanged (pkt : DosPacket) (bpArgs : UInt32) : Prop :=
  (bpArgs &&& BP1 ≠ 0 → pkt.dpArg1 = 0) ∧ (bpArgs &&& BP2 ≠ 0 → pkt.dpArg2 = 0) ∧
    (bpArgs &&& BP3 ≠ 0 → pkt.dpArg3 = 0) ∧ (bpArgs &&& BP4 ≠ 0 → pkt.dpArg4 = 0)

instance (pkt : DosPacket) (bpArgs : UInt32) : Decidable (pkt.Unchanged bpArgs) := by
  unfold DosPacket.Unchanged
  infer_instance

theorem DosPacket.args_converted_iff (pkt : DosPacket) (bpArgs : UInt32) :
    (pkt.converted bpArgs).args = pkt.args ↔ pkt.Unchanged bpArgs := by
  simp only [DosPacket.args, DosPacket.converted, DosPacket.Unchanged, List.cons.injEq, and_true,
    convert_eq_self_iff]

/-- The update of the credentials is needed for the client and fails. -/
def authFails (i : Input) (g : Global σ) (task : Task) : Bool :=
  let needs := crAuthNeedsUpdate i.ans (crUpdateCreds i.ans g.gCreds task) task
  needs.1 && !(crUpdateAuth i.db i.ans needs.2 g.auths task).1

theorem Global.updateAuth_cases (i : Input) (g : Global σ) (task : Task) :
    (g.updateAuth i task).1 = (crUpdateAuth i.db i.ans g.gCreds g.auths task).1 ∧
      (g.updateAuth i task).2.gDoReply = g.gDoReply := by
  unfold Global.updateAuth
  dsimp only
  cases hok : (crUpdateAuth i.db i.ans g.gCreds g.auths task).1 with
  | true => exact ⟨rfl, rfl⟩
  | false => exact ⟨rfl, rfl⟩

theorem Global.refresh_cases (acts : Actions F σ) (i : Input) (g : Global σ) (task : Task) :
    (g.refresh acts i task).1 = !authFails i g task ∧
      (g.refresh acts i task).2.gDoReply = g.gDoReply := by
  unfold Global.refresh authFails
  generalize crAuthNeedsUpdate i.ans (crUpdateCreds i.ans g.gCreds task) task = needs
  dsimp only
  cases hneeded : needs.1 with
  | false => exact ⟨rfl, rfl⟩
  | true =>
      obtain ⟨hok, hreply⟩ := (acts.actFLUSH (g.setCreds needs.2)).updateAuth_cases i task
      rw [if_pos rfl, Bool.true_and, Bool.not_not]
      exact ⟨hok, hreply⟩

theorem args_replyPkt (g : Global σ) (pkt : DosPacket) : (replyPkt g pkt).args = pkt.args := rfl

theorem args_restored (pkt saved : DosPacket) : (pkt.restored saved).args = saved.args := rfl

theorem finishTurn_reply {executed : Bool} {g : Global σ} {pkt r : DosPacket}
    (h : r ∈ (finishTurn executed g pkt).reply) : r.args = pkt.args := by
  unfold finishTurn at h
  simp only [Option.mem_def] at h
  split at h
  · obtain rfl := Option.some.inj h
    exact args_replyPkt g pkt
  · cases h

theorem Global.unLockAll_settled (i : Input) (g : Global σ) :
    (g.unLockAll i).gAttrCache.val.Settled ∧ (g.unLockAll i).gDirCache.val.Settled :=
  ⟨g.gAttrCache.settled_unLockAll _, g.gDirCache.settled_unLockAll _⟩

/-- Behind the call of an action the arguments are those saved and the caches are unlocked. -/
theorem execute_restores (acts : Actions F σ) (i : Input) (func : ActionFunc F) (g : Global σ)
    (saved pkt : DosPacket) :
    (execute acts i func g saved pkt).2.args = saved.args ∧
      (execute acts i func g saved pkt).1.gAttrCache.val.Settled ∧
      (execute acts i func g saved pkt).1.gDirCache.val.Settled := by
  unfold execute
  have hsettled := Global.unLockAll_settled i (acts.run func g pkt).2.1
  refine ⟨args_restored _ _, ?_⟩
  dsimp only
  split
  · exact hsettled
  · exact hsettled

section Turn
variable [DecidableEq F] {acts : Actions F σ} {i : Input} {g : Global σ} {pkt : DosPacket}

/-- The property, for the turn that came. -/
def Restored (pkt : DosPacket) (t : Turn σ) : Prop :=
  (∀ r ∈ t.reply, r.args = pkt.args) ∧
    (t.executed = true → t.g.gAttrCache.val.Settled ∧ t.g.gDirCache.val.Settled)

theorem restored_callFunc_iff (hreply : g.gDoReply = true) (func : ActionFunc F) (internal : Bool)
    (prepared : DosPacket) :
    Restored pkt (callFunc acts i func internal g pkt prepared) ↔
      (internal = false → func ≠ .actIOCONTROL → authFails i g prepared.dpPort = true →
        prepared.args = pkt.args) := by
  have hdone : ∀ g' : Global σ, Restored pkt
      (finishTurn true (execute acts i func g' pkt prepared).1
        (execute acts i func g' pkt prepared).2) := by
    intro g'
    obtain ⟨hargs, hsettled⟩ := execute_restores acts i func g' pkt prepared
    exact ⟨fun r hr => (finishTurn_reply hr).trans hargs, fun _ => hsettled⟩
  unfold callFunc
  dsimp only
  by_cases hcheck : ¬ internal = true ∧ func ≠ .actIOCONTROL
  · obtain ⟨hgo, hkeep⟩ := g.refresh_cases acts i prepared.dpPort
    have hint : internal = false := by simpa using hcheck.1
    rw [if_pos hcheck, hgo]
    cases hfails : authFails i g prepared.dpPort with
    | false => exact iff_of_true (hdone _) fun _ _ h => absurd h (by simp)
    | true =>
        have hrep : (finishTurn false (g.refresh acts i prepared.dpPort).2 prepared).reply =
            some (replyPkt (g.refresh acts i prepared.dpPort).2 prepared) :=
          if_pos (hkeep.trans hreply)
        rw [if_neg (by simp)]
        constructor
        · intro h _ _ _
          exact (args_replyPkt _ _).symm.trans (h.1 _ hrep)
        · intro h
          refine ⟨fun r hr => ?_, fun h => absurd h (by simp [finishTurn])⟩
          exact (finishTurn_reply hr).trans (h hint hcheck.2 rfl)
  · rw [if_neg hcheck]
    refine iff_of_true (hdone _) fun hint hio _ => ?_
    exact absurd ⟨by simp [hint], hio⟩ hcheck

end Turn

/-- A packet comes back with its arguments, and behind an action the caches are unlocked. -/
def ComesBack (acts : Actions F σ) (d : Dispatch (ActionFunc F) n) [DecidableEq F] (i : Input)
    (g : Global σ) (pkt : DosPacket) : Prop :=
  ∃ t, turn acts d i g pkt = some t ∧ Restored pkt t

theorem comesBack_of_turn {acts : Actions F σ} {d : Dispatch (ActionFunc F) n} [DecidableEq F]
    {i : Input} {g : Global σ} {pkt : DosPacket} {t : Turn σ} (h : turn acts d i g pkt = some t) :
    ComesBack acts d i g pkt ↔ Restored pkt t := by
  constructor
  · rintro ⟨t', ht', hrest⟩
    rw [h] at ht'
    exact Option.some.inj ht' ▸ hrest
  · exact fun hrest => ⟨t, h, hrest⟩

/-- The turn of a packet that `act_Prepare` converts. -/
theorem turn_converted [DecidableEq F] (acts : Actions F σ) {d : Dispatch (ActionFunc F) n}
    (hd : Ready d) (i : Input) {g : Global σ} {pkt : DosPacket} {ent : ATEntry (ActionFunc F)}
    (hfind : d.find pkt.dpType = some ent)
    (hwp : ¬ (g.gIsWriteProtected ∧ ent.ateBPArgs &&& WF ≠ 0)) :
    turn acts d i g pkt = some (callFunc acts i ent.ateFunc
      (decide (ent.ateBPArgs &&& INTF ≠ 0)) { g with gDoReply := true } pkt
      (pkt.converted ent.ateBPArgs)) := by
  unfold turn actPrepare
  rw [hd.row_eq, hfind]
  simp only [Option.bind_eq_bind, Option.bind_some, if_neg hwp]

/-- The main loop loses the converted arguments of a packet exactly when the update of the
credentials fails. -/
theorem comesBack_iff [DecidableEq F] (acts : Actions F σ) (d : Dispatch (ActionFunc F) n)
    (hd : Ready d) (i : Input) (g : Global σ) (pkt : DosPacket) :
    ComesBack acts d i g pkt ↔ ∀ ent, d.find pkt.dpType = some ent →
      ¬ (g.gIsWriteProtected ∧ ent.ateBPArgs &&& WF ≠ 0) → ent.ateBPArgs &&& INTF = 0 →
        ent.ateFunc ≠ .actIOCONTROL → authFails i g pkt.dpPort = true →
          pkt.Unchanged ent.ateBPArgs := by
  have hrow := hd.row_eq pkt.dpType
  cases hfind : d.find pkt.dpType with
  | none =>
      have hturn : turn acts d i g pkt = some (finishTurn false
          (({ g with gDoReply := true } : Global σ).setRes DOSFALSE errorActionNotKnown) pkt) := by
        unfold turn actPrepare
        rw [hrow, hfind]
        rfl
      refine iff_of_true ⟨_, hturn, fun r hr => finishTurn_reply hr, fun h => ?_⟩ fun ent h => ?_
      · exact absurd h (by simp [finishTurn])
      · cases h
  | some ent =>
      by_cases hwp : g.gIsWriteProtected ∧ ent.ateBPArgs &&& WF ≠ 0
      · have hturn : turn acts d i g pkt = some (callFunc acts i .actISWRITEPROTECTED
            (decide (ent.ateBPArgs &&& INTF ≠ 0)) { g with gDoReply := true } pkt pkt) := by
          unfold turn actPrepare
          rw [hrow, hfind]
          simp only [Option.bind_eq_bind, Option.bind_some, if_pos hwp]
        rw [comesBack_of_turn hturn, restored_callFunc_iff rfl]
        refine iff_of_true (fun _ _ _ => rfl) fun ent' h hnot => ?_
        obtain rfl := Option.some.inj h
        exact absurd hwp hnot
      · have hturn := turn_converted acts hd i hfind hwp
        have hint : decide (ent.ateBPArgs &&& INTF ≠ 0) = false ↔ ent.ateBPArgs &&& INTF = 0 := by
          simp
        rw [comesBack_of_turn hturn, restored_callFunc_iff rfl, hint,
          DosPacket.args_converted_iff]
        constructor
        · intro h ent' he _
          obtain rfl := Option.some.inj he
          exact h
        · exact fun h => h ent rfl hwp

/-- `ACTION_LOCATE_OBJECT` alone. -/
def exLocate : Dispatch (ActionFunc Unit) (iSize false) :=
  ⟨[{ ateAction := 8, ateFunc := .func (), ateBPArgs := BP1 ||| BP2 }],
    Vector.replicate _ ⟨0, 0, 0⟩, none, none⟩

/-- An empty cache. -/
def exCache : Table :=
  ⟨(fthashNew 256 4 100 60 true).get (by decide), by
    have hnew : fthashNew (K := UInt32) (V := Nat) 256 4 100 60 true =
        some ((fthashNew 256 4 100 60 true).get (by decide)) := (Option.some_get _).symm
    exact (Ledger.kept_start hnew).sound _ rfl⟩

/-- The handler has an `AUTH` for task 1. -/
def exGlobal : Global Unit :=
  { gIsWriteProtected := false, gRes1 := 0, gRes2 := 0, gDoReply := true, gPort := 0
    gCreds := { crInit with crAuth := some ⟨0, 0, 0, []⟩, crClientCache := some 1 }
    auths := ⟨1, []⟩, clAuth := some ⟨0, 0, 0, []⟩
    gAttrCache := exCache, gDirCache := exCache, rest := () }

/-- `authunix_create` has no memory, or has. -/
def exInput (authOk : Bool) : Input :=
  ⟨⟨fun _ => none, []⟩, ⟨fun _ => some ⟨7, 7, [], 0⟩, true, authOk, true⟩, 100, 100⟩

/-- The actions of a handler in which every action succeeds. -/
def exActions : Actions Unit Unit := ⟨fun _ g pkt => (DOSTRUE, g, pkt), id⟩

/-- Task 2 asks for a lock with the `BPTR`s 5 and 6. -/
def exPacket : DosPacket := ⟨8, 5, 6, 0, 0, 2, 0, 0⟩

theorem exLocate_ready : ∃ d, actInit exLocate = some (true, d) ∧
    d.actionTable = exLocate.actionTable ∧ Ready d :=
  actInit_ready exLocate (by decide) (by decide) (by decide) (by decide) (by decide)

theorem comesBack_iff_exPacket : ∃ d, actInit exLocate = some (true, d) ∧
    (ComesBack exActions d (exInput true) exGlobal exPacket ↔
      ∀ ent, d.find exPacket.dpType = some ent →
        ¬ (exGlobal.gIsWriteProtected ∧ ent.ateBPArgs &&& WF ≠ 0) → ent.ateBPArgs &&& INTF = 0 →
          ent.ateFunc ≠ .actIOCONTROL → authFails (exInput true) exGlobal exPacket.dpPort = true →
            exPacket.Unchanged ent.ateBPArgs) := by
  obtain ⟨d, hinit, -, hd⟩ := exLocate_ready
  exact ⟨d, hinit, comesBack_iff exActions d hd (exInput true) exGlobal exPacket⟩

/-- Without memory for an `AUTH` the packet is replied with the arguments 20 and 24. -/
theorem not_comesBack_exPacket : ∃ d, actInit exLocate = some (true, d) ∧
    ¬ ComesBack exActions d (exInput false) exGlobal exPacket := by
  obtain ⟨d, hinit, htable, hd⟩ := exLocate_ready
  have hfind : d.find exPacket.dpType =
      some { ateAction := 8, ateFunc := .func (), ateBPArgs := BP1 ||| BP2 } := by
    unfold Dispatch.find
    rw [htable]
    rfl
  have hturn := turn_converted exActions hd (exInput false) hfind (g := exGlobal) (by decide)
  refine ⟨d, hinit, fun h => ?_⟩
  rw [comesBack_of_turn hturn, restored_callFunc_iff rfl] at h
  exact absurd (h (by decide) (by decide) (by decide)) (by decide)

end Anfs.Action
