import Usbip.Mtp.Confined
import Usbip.Mtp.Contents

/-! A move from one store to another: a copy of the tree and then its removal.  The class looks at
the result of neither, so the move is what it should be exactly when every call succeeds. -/

namespace Usbip.Mtp

open Lib Control

/-! ### The calls of an action -/

def Effect.call? {β : Type} : Effect β → Option Call
  | .called c _ => some c
  | _ => none

def Call.isRemove : Call → Bool
  | .remove .. => true
  | _ => false

/-- What the backend is after some calls. -/
def Backend.after {β : Type} (B : Backend β) (disk : β) (cs : List Call) : β :=
  cs.foldl (fun disk c => (B.call disk c).2) disk

/-- The calls of a kind succeed, each on what the calls before it have left. -/
def AllSucceed {β : Type} (B : Backend β) (files : β → Nat → CStr → Option Node)
    (kind : Call → Bool) : β → List Call → Prop
  | _, [] => True
  | disk, c :: cs =>
    (kind c = true → c.Succeeds B files disk) ∧ AllSucceed B files kind (B.call disk c).2 cs

/-- The calls that have led from one world to another. -/
structure Replays {β : Type} (B : Backend β) (w w' : World β) (cs : List Call) : Prop where
  calls : ∃ es, w'.log = w.log ++ es ∧ es.filterMap Effect.call? = cs
  disk : w'.disk = B.after w.disk cs

def callsBetween {β : Type} (w w' : World β) : List Call :=
  (w'.log.drop w.log.length).filterMap Effect.call?

section
variable {β : Type} {B : Backend β} {files : β → Nat → CStr → Option Node} {kind : Call → Bool}
  {w w' w'' : World β} {cs cs' : List Call} {disk : β}

theorem after_append : B.after disk (cs ++ cs') = B.after (B.after disk cs) cs' :=
  List.foldl_append ..

theorem allSucceed_append : AllSucceed B files kind disk (cs ++ cs') ↔
    AllSucceed B files kind disk cs ∧ AllSucceed B files kind (B.after disk cs) cs' := by
  induction cs generalizing disk with
  | nil => exact (and_iff_right trivial).symm
  | cons c cs ih => exact (and_congr_right fun _ => ih).trans and_assoc.symm

namespace Replays

theorem refl (w : World β) : Replays B w w [] := ⟨⟨[], by simp, rfl⟩, rfl⟩

theorem trans (h : Replays B w w' cs) (h' : Replays B w' w'' cs') :
    Replays B w w'' (cs ++ cs') := by
  obtain ⟨es, hes, hcs⟩ := h.calls
  obtain ⟨es', hes', hcs'⟩ := h'.calls
  refine ⟨⟨es ++ es', by rw [hes', hes, List.append_assoc], ?_⟩, ?_⟩
  · rw [List.filterMap_append, hcs, hcs']
  · rw [h'.disk, h.disk, after_append]

theorem ask (w : World β) (c : Call) : Replays B w (w.ask B c).2 [c] := ⟨⟨_, rfl, rfl⟩, rfl⟩

theorem setSt (w : World β) (st : MtpState) : Replays B w (w.setSt st) [] :=
  ⟨⟨[], by simp [World.setSt], rfl⟩, rfl⟩

theorem sent (w : World β) (pipe : Pipe) (c : Container) :
    Replays B w (w.note (.sent pipe c)) [] := ⟨⟨_, rfl, rfl⟩, rfl⟩

theorem callsBetween (h : Replays B w w' cs) : callsBetween w w' = cs := by
  obtain ⟨es, hes, hcs⟩ := h.calls
  rw [Mtp.callsBetween, hes, List.drop_left, hcs]

end Replays

/-! ### A rescan asks -/

/-- Only questions have led from one world to another. -/
def Asks (B : Backend β) (w w' : World β) : Prop :=
  ∃ cs, Replays B w w' cs ∧ ∀ c ∈ cs, c.mutates = false

namespace Asks

theorem refl (w : World β) : Asks B w w := ⟨[], .refl w, by simp⟩

theorem trans (h : Asks B w w') (h' : Asks B w' w'') : Asks B w w'' := by
  obtain ⟨cs, hr, hcs⟩ := h
  obtain ⟨cs', hr', hcs'⟩ := h'
  exact ⟨cs ++ cs', hr.trans hr', fun c hc => (List.mem_append.mp hc).elim (hcs c) (hcs' c)⟩

theorem ask {c : Call} (hc : c.mutates = false) : Asks B w (w.ask B c).2 :=
  ⟨[c], .ask w c, fun _ hc' => List.mem_singleton.mp hc' ▸ hc⟩

theorem foldl {α : Type*} {f : World β → α → World β} (hf : ∀ w a, Asks B w (f w a)) (l : List α)
    (w : World β) : Asks B w (l.foldl f w) := by
  induction l generalizing w with
  | nil => exact .refl w
  | cons a l ih => exact (hf w a).trans (ih _)

theorem scanDir (si fuel : Nat) (w : World β) (dir : CStr) (parent : UInt32) :
    Asks B w (scanDir B si fuel w dir parent) := by
  induction fuel generalizing w dir parent with
  | zero => exact ⟨[], ⟨⟨[], by simp [Mtp.scanDir, World.fail], rfl⟩, rfl⟩, by simp⟩
  | succ fuel ih =>
    refine (Asks.ask (c := .listdir si dir) rfl).trans (.foldl (fun w n => ?_) _ _)
    have hask : Asks B w (w.ask B (.getInfo si (pathJoin 4096 dir n))).2 := .ask rfl
    unfold scanName
    dsimp only
    split
    · exact hask
    · have hup := fun info => hask.trans (⟨[], .setSt _ _, by simp⟩ :
        Asks B _ (World.upsert _ si (pathJoin 4096 dir n) n parent info).2)
      split
      · exact (hup _).trans (ih _ _ _)
      · exact hup _

theorem rescan (w : World β) : Asks B w (rescan B w) := by
  have hnote : ∀ w : World β, Asks B w (w.note (.rescanned w.st w.disk)) :=
    fun w => ⟨[], ⟨⟨_, rfl, rfl⟩, rfl⟩, by simp⟩
  have hset : Asks B w (w.setSt
      { w.st with objs := w.st.objs.map fun o => { o with alive := false } }) :=
    ⟨[], .setSt _ _, by simp⟩
  have hscan := hset.trans (.foldl (fun w si => .scanDir si B.depth w [] 0)
    (List.range w.st.nStores) _)
  exact hscan.trans (hnote _)

end Asks

end

theorem Stored.after_queries {β : Type} {B : Backend β} {files : β → Nat → CStr → Option Node}
    {trees : β → Nat → Tree} (hB : Stored B files trees) {disk : β} {cs : List Call}
    (h : ∀ c ∈ cs, c.mutates = false) : files (B.after disk cs) = files disk := by
  induction cs generalizing disk with
  | nil => rfl
  | cons c cs ih =>
    obtain ⟨hc, hcs⟩ := List.forall_mem_cons.mp h
    exact (ih hcs).trans (hB.query disk c hc)

/-! ### The copy -/

/-- What leads from one world to another puts something into a store, unless a call of a copy fails
on the way. -/
structure Puts {β : Type} (B : Backend β) (files : β → Nat → CStr → Option Node) (dsi : Nat)
    (w w' : World β) (put : (CStr → Option Node) → CStr → Option Node) : Prop where
  st : w'.st = w.st
  others : ∀ si ≠ dsi, files w'.disk si = files w.disk si
  calls : ∃ cs, Replays B w w' cs ∧ (∀ c ∈ cs, c.isRemove = false) ∧
    (AllSucceed B files (!·.isRemove) w.disk cs → files w'.disk dsi = put (files w.disk dsi))

section
variable {β : Type} {B : Backend β} {files : β → Nat → CStr → Option Node}
  {trees : β → Nat → Tree} {dsi ssi : Nat} {w w' w'' : World β} {objs : List Obj}
  {G : CStr → Option Node}

theorem Puts.refl (w : World β) : Puts B files dsi w w fun F => F :=
  ⟨rfl, fun _ _ => rfl, [], .refl w, by simp, fun _ => rfl⟩

theorem Puts.trans {put put' : (CStr → Option Node) → CStr → Option Node}
    (h : Puts B files dsi w w' put) (h' : Puts B files dsi w' w'' put') :
    Puts B files dsi w w'' fun F => put' (put F) := by
  obtain ⟨cs, hr, hcs, hput⟩ := h.calls
  obtain ⟨cs', hr', hcs', hput'⟩ := h'.calls
  refine ⟨h'.st.trans h.st, fun si hsi => (h'.others si hsi).trans (h.others si hsi), cs ++ cs',
    hr.trans hr', fun c hc => (List.mem_append.mp hc).elim (hcs c) (hcs' c), fun hall => ?_⟩
  rw [allSucceed_append, ← hr.disk] at hall
  rw [hput' hall.2, hput hall.1]

/-- The children of a directory, each copied into the copy of the directory. -/
theorem Puts.children (copy : World β → Obj → World β) {o : Obj} {d : CStr} (hne : ssi ≠ dsi)
    (hsrc : Source objs ssi G) (ho : o ∈ objs) (halive : o.alive = true) (hsi : o.si = ssi)
    (hcopy : ∀ w c, w.st.objs = objs → files w.disk ssi = G → c ∈ objs → c.alive = true →
      c.parent = o.handle →
      Puts B files dsi w (copy w c) fun F => graft slash F (joinPath slash d c.name) G c.path)
    {l : List Obj} (hl : ∀ c ∈ l, c ∈ objs) (hw : w.st.objs = objs)
    (hG : files w.disk ssi = G) :
    Puts B files dsi w
      (l.foldl (fun w c => if c.alive && c.parent == o.handle then copy w c else w) w) fun F =>
        ((l.filter fun c => c.alive && c.parent == o.handle).map Obj.name).foldl (fun F n =>
          graft slash F (joinPath slash d n) G (joinPath slash o.path n)) F := by
  induction l generalizing w with
  | nil => exact .refl w
  | cons c l ih =>
    obtain ⟨hc, hl⟩ := List.forall_mem_cons.mp hl
    rw [List.foldl_cons]
    by_cases hchild : (c.alive && c.parent == o.handle) = true
    · rw [if_pos hchild, List.filter_cons, if_pos hchild, List.map_cons]
      rw [Bool.and_eq_true, beq_iff_eq] at hchild
      have hone := hcopy w c hw hG hc hchild.1 hchild.2
      rw [(hsrc.child o ho c hc halive hchild.1 hsi hchild.2).2] at hone
      exact hone.trans (ih hl ((congrArg MtpState.objs hone.st).trans hw)
        ((hone.others ssi hne).trans hG))
    · rw [if_neg hchild, List.filter_cons, if_neg hchild]
      exact ih hl hw hG

/-- A file goes over whole where the read and the write succeed. -/
theorem Puts.file (hB : Stored B files trees) (hsrc : Source objs ssi G) (hne : ssi ≠ dsi)
    (hG : files w.disk ssi = G) {o : Obj} (ho : o ∈ objs) (halive : o.alive = true)
    (hsi : o.si = ssi) (hfile : o.isDir = false) {d : CStr} (hd : d ≠ []) :
    Puts B files dsi w
      ((readObject B w o 0 (-1)).2.tell B (.write dsi d
        ((readObject B w o 0 (-1)).1.data.take (readObject B w o 0 (-1)).1.rc.toNat)
        (readObject B w o 0 (-1)).1.rc)) fun F => graft slash F d G o.path := by
  obtain ⟨data, hdata, -, hnone⟩ := hsrc.file o ho halive hsi hfile
  subst hsi hG
  -- what the read asks for, and what is kept of its answer
  obtain ⟨avail, havail⟩ : ∃ avail : Int, avail = max 0 (toInt64 (toInt64 o.size.toNat - 0)) :=
    ⟨_, rfl⟩
  have havail0 : 0 ≤ avail := havail ▸ le_max_left 0 _
  have hread : readObject B w o 0 (-1) =
      (⟨B.rc w.disk (.read o.si o.path 0 (toInt32 avail)),
        (B.got w.disk o.si o.path (toInt32 avail)).take avail.toNat⟩,
        (w.ask B (.read o.si o.path 0 (toInt32 avail))).2) := by
    subst havail
    rfl
  rw [hread]
  dsimp only
  have hquery : files (w.ask B (.read o.si o.path 0 (toInt32 avail))).2.disk = files w.disk :=
    hB.query _ _ rfl
  have hasked := hB.read w.disk o.si o.path (toInt32 avail) data hdata
  have h32 := toInt32_le havail0
  generalize hw1 : (w.ask B (.read o.si o.path 0 (toInt32 avail))).2 = w1 at *
  generalize hrc : B.rc w.disk (.read o.si o.path 0 (toInt32 avail)) = rc at *
  generalize hgot : B.got w.disk o.si o.path (toInt32 avail) = got at *
  refine ⟨hw1 ▸ rfl, fun si hsi => ?_, _, hw1 ▸ (Replays.ask w _).trans (.ask _ _), by
    simp [Call.isRemove], fun hall => ?_⟩
  · funext q
    exact (hB.write_frame _ _ _ _ _ si q fun hc => hsi hc.1).trans
      (congrFun (congrFun hquery si) q)
  · obtain ⟨hrok, hwok, -⟩ := hall
    have hfull : rc = data.length := hrc ▸ hrok rfl data hdata
    have hbytes : (got.take avail.toNat).take rc.toNat = data := by
      rw [List.take_take, min_eq_left (by omega), hasked.2, hfull, Int.toNat_natCast,
        List.take_length]
    rw [hbytes, hfull] at hwok ⊢
    have hdisk : (B.call w.disk (.read o.si o.path 0 (toInt32 avail))).2 = w1.disk := hw1 ▸ rfl
    rw [hdisk] at hwok
    have hwritten := hB.write w1.disk dsi d data (hwok rfl)
    have hnotdir : files (w1.tell B (.write dsi d data data.length)).disk dsi d ≠ some .dir :=
      fun hc => nomatch hwritten.symm.trans hc
    refine graft_node (hwritten.trans hdata.symm) (hB.below_none hd hnotdir) (fun q hq => ?_) hnone
    refine (hB.write_frame _ _ _ _ _ dsi q fun hc => hq (hc.2 ▸ .refl d)).trans ?_
    exact congrFun (congrFun hquery dsi) q

/-- A directory goes over where it is made and its children go over. -/
theorem Puts.dir (hB : Stored B files trees) (hsrc : Source objs ssi G) {o : Obj} (ho : o ∈ objs)
    (halive : o.alive = true) (hsi : o.si = ssi) (hdir : o.isDir = true) {d : CStr} (hd : d ≠ [])
    (h : Puts B files dsi (w.tell B (.makeDir dsi d)) w' fun F =>
      ((objs.filter fun c => c.alive && c.parent == o.handle).map Obj.name).foldl (fun F n =>
        graft slash F (joinPath slash d n) G (joinPath slash o.path n)) F) :
    Puts B files dsi w w' fun F => graft slash F d G o.path := by
  obtain ⟨cs, hr, hcs, hput⟩ := h.calls
  refine ⟨h.st, fun si hne => (h.others si hne).trans ?_, _, (Replays.ask w _).trans hr, ?_,
    fun hall => ?_⟩
  · funext q
    exact hB.makeDir_frame _ _ _ si q fun hc => hne hc.1
  · intro c hc
    rcases List.mem_cons.mp hc with rfl | hc
    · rfl
    · exact hcs c hc
  · obtain ⟨hmade, hall⟩ := hall
    obtain ⟨hfree, hmade⟩ := hB.makeDir w.disk dsi d (hmade rfl)
    obtain ⟨hG, hentries⟩ := hsrc.dir o ho halive hsi hdir
    have hframe : ∀ q, q ≠ d →
        files (w.tell B (.makeDir dsi d)).disk dsi q = files w.disk dsi q :=
      fun q hq => hB.makeDir_frame _ _ _ dsi q fun hc => hq hc.2
    rw [hput hall]
    refine foldl_graft_dir hd (hsrc.path o ho halive hsi).2.2.1 (hmade.trans hG.symm)
      (fun s => ?_) (fun q hq => hframe q fun hc => hq (hc ▸ .refl q)) fun s hs => ?_
    · rw [hframe _ (by simp)]
      exact hB.below_none hd (by simp [hfree]) s
    · obtain ⟨c, hc, hcalive, hparent, hunder⟩ := hentries s hs
      refine ⟨c.name, List.mem_map_of_mem (List.mem_filter.mpr ⟨hc, ?_⟩), hunder⟩
      rw [Bool.and_eq_true, beq_iff_eq]
      exact ⟨hcalive, hparent⟩

/-- A tree goes over where every call of the copy succeeds. The paths of the copy are not more than
a path longer than those of the tree, so they fit. -/
theorem Puts.copyTree (hB : Stored B files trees) (hsrc : Source objs ssi G) (hne : ssi ≠ dsi)
    {depth : Obj → Nat} (hdown : Descends objs depth) {fuel : Nat} (hw : w.st.objs = objs)
    (hG : files w.disk ssi = G) {o : Obj} (ho : o ∈ objs) (halive : o.alive = true)
    (hsi : o.si = ssi) (hcount : objs.countP (fun b => depth o < depth b) < fuel)
    {dest name : CStr} (hname : name ≠ [])
    (hlen : (joinPath slash dest name).length ≤ o.path.length + 4096) :
    Puts B files dsi w (copyTree B dsi fuel w o dest name)
      fun F => graft slash F (joinPath slash dest name) G o.path := by
  induction fuel generalizing w o dest name with
  | zero => exact absurd hcount (Nat.not_lt_zero _)
  | succ fuel ih =>
    have hpath := hsrc.path o ho halive hsi
    have hneu : pathJoin 8192 dest name = joinPath slash dest name :=
      pathJoin_of_lt (by omega)
    have hd : joinPath slash dest name ≠ [] := joinPath_ne_nil dest hname
    unfold Mtp.copyTree
    dsimp only
    rw [hneu]
    split
    · next hdir =>
      refine .dir hB hsrc ho halive hsi hdir hd ?_
      have hG1 : files (w.tell B (.makeDir dsi (joinPath slash dest name))).disk ssi = G := by
        rw [← hG]
        funext q
        exact hB.makeDir_frame _ _ _ ssi q fun hc => hne hc.1
      rw [copyChildren, show (w.tell B (.makeDir dsi _)).st.objs = objs from hw]
      refine .children (fun w c => Mtp.copyTree B dsi fuel w c (joinPath slash dest name) c.name)
        hne hsrc ho halive hsi (fun w c hw hG hc hcalive hparent => ?_) (fun _ => id) hw hG1
      obtain ⟨hcsi, hcpath⟩ := hsrc.child o ho c hc halive hcalive hsi hparent
      have hcname := (hsrc.path c hc hcalive hcsi).1.1
      -- the child is deeper, so fewer entries are deeper than it
      have hlt := hdown c hc o ho hcalive halive hparent
      have := countP_lt_countP (p := fun b => decide (depth c < depth b))
        (q := fun b => decide (depth o < depth b))
        (fun b _ hb => decide_eq_true (lt_trans hlt (of_decide_eq_true hb))) hc
        (decide_eq_false (lt_irrefl _)) (decide_eq_true hlt)
      refine ih hw hG hc hcalive hcsi (by omega) hcname ?_
      rw [hcpath, joinPath_of_ne_nil hd, joinPath_of_ne_nil hpath.2.2.1, List.length_append,
        List.length_append]
      omega
    · next hfile => exact .file hB hsrc hne hG ho halive hsi (by simpa using hfile) hd

end

/-! ### The command -/

/-- The object and the directory, where an outcome is a move to another store. -/
def Outcome.moves : Outcome → Option (Obj × Nat × CStr)
  | .moveAcross o dsi dest => some (o, dsi, dest)
  | _ => none

/-- The move to another store that an action comes to. -/
def Act.moves {β : Type} (dateText : UInt32 → CStr) (st : MtpState) :
    Act β → Option (Obj × Nat × CStr)
  | .out chunk =>
    if st.rxActive ∨ chunk.length < 12 ∨ st.session = 0 then none
    else (plan dateText st (getLe16 (chunk.drop 6)) (paramsOf chunk)).moves
  | _ => none

/-- A response with OK goes out. -/
def AnsweredOk {β : Type} (w w' : World β) : Prop :=
  ∃ txid payload, .sent .bulkIn ⟨ctResponse, rcOk, txid, payload⟩ ∈ w'.log.drop w.log.length

/-- What an object was is at another path, with all that was below it. -/
def CopiedTo (F F' : Nat → CStr → Option Node) (o : Obj) (dsi : Nat) (full : CStr) : Prop :=
  ∀ r, (r = [] ∨ ∃ s, r = slash :: s) → F' dsi (full ++ r) = F o.si (o.path ++ r)

/-- What a host may rely on in a move: OK stands for a whole copy and no original, a copy that fails
leaves the original and a removal that fails leaves the copy, and neither is answered with OK. -/
structure MoveKept (F F' : Nat → CStr → Option Node) (o : Obj) (dsi : Nat) (full : CStr)
    (ok copied removed : Prop) : Prop where
  done : ok → CopiedTo F F' o dsi full ∧ ∀ q, Under slash o.path q → F' o.si q = none
  failed : ¬copied → (∀ q, Under slash o.path q → F' o.si q = F o.si q) ∧ ¬ok
  left : copied → ¬removed → ¬ok ∧ CopiedTo F F' o dsi full

section
variable {β : Type} {B : Backend β} {files : β → Nat → CStr → Option Node}
  {trees : β → Nat → Tree} {w : World β} {a : Act β} {o : Obj} {dsi : Nat} {dest : CStr}

/-- Such an action is a copy, a removal and a rescan, with OK at the end. -/
theorem act_of_moves (h : a.moves B.dateText w.st = some (o, dsi, dest)) :
    (o ∈ w.st.objs ∧ o.alive = true ∧ Known w.st.objs dest ∧ dsi ≠ o.si) ∧ ∃ txid, act B w a =
      (rescan B ((copyTree B dsi (w.st.objs.length + 1) w o dest o.name).tell B
        (.remove o.si o.path))).respond rcOk txid [] := by
  cases a with
  | control setup => cases h
  | outside disk => cases h
  | out chunk =>
    rw [Act.moves] at h
    split at h
    · cases h
    · next hguard =>
      rw [not_or, not_or, not_lt] at hguard
      obtain ⟨hrx, hchunk, hsession⟩ := hguard
      have hplanned := Planned.plan w.st (getLe16 (chunk.drop 6)) (paramsOf chunk) B.dateText
      have hact := onOut_of_inactive B (by simpa using hrx) chunk
      rw [dispatch_of_session B hchunk hsession] at hact
      generalize plan B.dateText w.st _ _ = outcome at h hplanned hact
      cases outcome <;> cases h
      obtain ⟨-, -, ho, ht, hne⟩ := hplanned
      obtain ⟨hmem, halive, -⟩ := objByHandle_some ho
      exact ⟨⟨hmem, halive, .target ht, hne⟩, _, hact⟩

theorem respond_ok (w : World β) (txid : UInt32) :
    w.respond rcOk txid [] = w.note (.sent .bulkIn ⟨ctResponse, rcOk, txid, []⟩) := rfl

/-- Such an action is always answered with OK. -/
theorem answeredOk_of_moves (ha : a.moves B.dateText w.st = some (o, dsi, dest)) :
    AnsweredOk w (act B w a) := by
  obtain ⟨-, txid, hact⟩ := act_of_moves ha
  have hcopy := (Quiet.copyTree B (w := w) rfl dsi (w.st.objs.length + 1) o dest o.name).logs.mono
    (Q := fun _ => True) fun _ _ => trivial
  have hremove := hcopy.trans (Logs.ask (c := .remove o.si o.path) B trivial)
  have hscan := hremove.trans (Extends.rescan B (fun _ _ _ => trivial) (fun _ _ _ => trivial)
    trivial).logs
  obtain ⟨es, hes, -⟩ := hscan.log
  refine ⟨txid, [], ?_⟩
  rw [hact, respond_ok, World.note, World.tell, hes, List.append_assoc, List.drop_left]
  exact List.mem_append_right _ (List.mem_singleton_self _)

/-- A move whose calls all succeed is whole. -/
theorem moves_done (hB : Stored B files trees)
    (hsync : Mirrors w.st.objs w.st.nStores (trees w.disk))
    (hnum : Numbered w.st.objs w.st.nextHandle) (hlen : w.st.objs.length < 2 ^ 32)
    (ha : a.moves B.dateText w.st = some (o, dsi, dest))
    (hcopied : AllSucceed B files (!·.isRemove) w.disk (callsBetween w (act B w a)))
    (hremoved : AllSucceed B files Call.isRemove w.disk (callsBetween w (act B w a))) :
    CopiedTo (files w.disk) (files (act B w a).disk) o dsi (joinPath slash dest o.name) ∧
      ∀ q, Under slash o.path q → files (act B w a).disk o.si q = none := by
  obtain ⟨⟨ho, halive, hdest, hne⟩, txid, hact⟩ := act_of_moves ha
  have hT := hB.holds.proper w.disk
  have hsrc := hsync.source hnum hlen hB o.si
  -- the path of the copy fits
  have hdestlen : dest.length < 4096 := by
    rcases hdest with rfl | ⟨d, hd, hdalive, rfl⟩
    · exact Nat.zero_lt_succ _
    · exact (hT d.si).entry_length (hsync.alive d hd hdalive).2
  have hfit : (joinPath slash dest o.name).length ≤ o.path.length + 4096 := by
    obtain ⟨dir, -, -, hpath, -⟩ := hsync.placed ho halive
    rw [hpath, joinPath_eq_append, joinPath_eq_append, List.length_append, List.length_append]
    split
    · rw [List.length_nil]
      omega
    · rw [List.length_append, List.length_singleton]
      omega
  have hputs := Puts.copyTree (w := w) hB hsrc hne.symm (hsync.descends hT hnum hlen) rfl rfl ho
    halive rfl (Nat.lt_succ_of_le List.countP_le_length) (hsrc.path o ho halive rfl).1.1 hfit
  generalize copyTree B dsi (w.st.objs.length + 1) w o dest o.name = w1 at hputs hact
  obtain ⟨cs, hr, hcs, hput⟩ := hputs.calls
  obtain ⟨cs', hr', hcs'⟩ := Asks.rescan (B := B) (w1.tell B (.remove o.si o.path))
  generalize rescan B (w1.tell B (.remove o.si o.path)) = w2 at hr' hact
  have hall := hr.trans ((Replays.ask w1 (.remove o.si o.path)).trans
    (hr'.trans (.sent w2 .bulkIn ⟨ctResponse, rcOk, txid, []⟩)))
  rw [hact, respond_ok] at hcopied hremoved ⊢
  rw [hall.callsBetween] at hcopied hremoved
  simp only [allSucceed_append, ← hr.disk] at hcopied hremoved
  obtain ⟨-, ⟨hremove, -⟩, -⟩ := hremoved
  have hend : files (w2.note (.sent .bulkIn ⟨ctResponse, rcOk, txid, []⟩)).disk =
      files (B.call w1.disk (.remove o.si o.path)).2 :=
    (congrArg files hr'.disk).trans (hB.after_queries hcs')
  rw [hend]
  refine ⟨fun r hsep => ?_, hB.remove w1.disk o.si o.path (hremove rfl)⟩
  rw [hB.remove_frame _ _ _ dsi _ fun hc => hne hc.1, hput hcopied.1, graft_append hsep]

/-- In every run, a move to another store keeps what a host may rely on exactly when every call of
the copy and the removal succeed. -/
theorem moves_kept_iff (hB : Stored B files trees) (hdepth : 4096 ≤ B.depth) {opts : MtpOpts}
    {disk : β} {acts : List (Act β)} (h : exec (next B) (build B opts disk) acts = some w)
    (hsync : Mirrors w.st.objs w.st.nStores (trees w.disk)) (hlen : w.st.objs.length < 2 ^ 32 - 1)
    (ha : a.moves B.dateText w.st = some (o, dsi, dest)) :
    MoveKept (files w.disk) (files (act B w a).disk) o dsi (joinPath slash dest o.name)
        (AnsweredOk w (act B w a))
        (AllSucceed B files (!·.isRemove) w.disk (callsBetween w (act B w a)))
        (AllSucceed B files Call.isRemove w.disk (callsBetween w (act B w a))) ↔
      AllSucceed B files (!·.isRemove) w.disk (callsBetween w (act B w a)) ∧
        AllSucceed B files Call.isRemove w.disk (callsBetween w (act B w a)) := by
  obtain ⟨_, ht⟩ := (mirrored_run hB.holds hdepth h).table
  have hok := answeredOk_of_moves ha
  constructor
  · intro hkept
    have hcopied : AllSucceed B files (!·.isRemove) w.disk (callsBetween w (act B w a)) := by
      by_contra hfailed
      exact (hkept.failed hfailed).2 hok
    refine ⟨hcopied, ?_⟩
    by_contra hleft
    exact (hkept.left hcopied hleft).1 hok
  · rintro ⟨hcopied, hremoved⟩
    have hdone := moves_done hB hsync ht.numbered (by omega) ha hcopied hremoved
    exact ⟨fun _ => hdone, fun hc => absurd hcopied hc,
      fun _ hc => absurd hremoved hc⟩

end

/-! ### A move that loses a file -/

/-- An empty file in the first store. The only call that ever succeeds is its removal. -/
def lossyNames (disk si : Nat) : List CStr := if disk = 0 ∧ si = 0 then [ascii "a"] else []

def lossyRc (disk : Nat) (c : Call) : Int × Nat :=
  if disk = 0 ∧ c = .remove 0 (ascii "a") then (0, 1) else (-1, disk)

def lossyBackend : Backend Nat := .ofTrees (fun disk si => .files (lossyNames disk si)) lossyRc

def lossyFiles (disk si : Nat) (p : CStr) : Option Node :=
  ((Tree.files (lossyNames disk si)).info p).map fun _ => .file []

theorem lossyFiles_eq (disk si : Nat) (p : CStr) :
    lossyFiles disk si p = if p ∈ lossyNames disk si then some (.file []) else none :=
  apply_ite (Option.map fun _ => Node.file []) ..

theorem lossy_mem {disk si : Nat} {p : CStr} (h : p ∈ lossyNames disk si) :
    disk = 0 ∧ si = 0 ∧ p = ascii "a" := by
  unfold lossyNames at h
  split at h
  · next h0 => exact ⟨h0.1, h0.2, List.mem_singleton.mp h⟩
  · exact absurd h List.not_mem_nil

theorem lossyRc_ne {disk : Nat} {c : Call} (h : ¬(disk = 0 ∧ c = .remove 0 (ascii "a"))) :
    lossyRc disk c = (-1, disk) := if_neg h

theorem lossy_stored : Stored lossyBackend lossyFiles fun disk si => .files (lossyNames disk si) := by
  have hplain : ∀ disk si, (Tree.files (lossyNames disk si)).Proper := by
    intro disk si
    refine Tree.files_proper (fun n hn => ?_) ?_
    · obtain ⟨-, -, rfl⟩ := lossy_mem hn
      decide
    · unfold lossyNames
      split <;> simp
  have hkeep : ∀ disk c, c.mutates = true → ¬(disk = 0 ∧ c = .remove 0 (ascii "a")) →
      (lossyBackend.call disk c).2 = disk := by
    intro disk c hc hne
    cases c <;> first | exact congrArg Prod.snd (lossyRc_ne hne) | cases hc
  constructor
  · exact holds_ofTrees _ hplain
  · intro disk si p _
    rw [Tree.files_entry, lossyFiles_eq]
    split <;> simp [*]
  · intro disk si p i hentry hi
    rw [Tree.files_entry] at hentry
    obtain rfl : (⟨false, 0, 0⟩ : Info) = i := Option.some.inj ((if_pos hentry).symm.trans hi)
    exact ⟨[], (lossyFiles_eq disk si p).trans (if_pos hentry), rfl⟩
  · intro disk c hc
    cases c <;> first | rfl | cases hc
  · intro disk si p want data _
    exact ⟨le_max_left 0 want, rfl⟩
  · intro disk si p data h
    have hrc : lossyBackend.rc disk (.write si p data data.length) = -1 :=
      congrArg Prod.fst (lossyRc_ne (by simp))
    exact absurd (hrc.symm.trans h) (by decide)
  · intro disk si p data len si' q _
    rw [hkeep disk _ rfl (by simp)]
  · intro disk si p h
    have hrc : lossyBackend.rc disk (.makeDir si p) = -1 :=
      congrArg Prod.fst (lossyRc_ne (by simp))
    exact absurd (hrc.symm.trans h) (by decide)
  · intro disk si p si' q _
    rw [hkeep disk _ rfl (by simp)]
  · intro disk si p h q _
    by_cases hc : disk = 0 ∧ Call.remove si p = .remove 0 (ascii "a")
    · obtain ⟨rfl, hc⟩ := hc
      obtain ⟨rfl, rfl⟩ := Call.remove.inj hc
      rfl
    · have hrc : lossyBackend.rc disk (.remove si p) = -1 := congrArg Prod.fst (lossyRc_ne hc)
      exact absurd (hrc.symm.trans h) (by decide)
  · intro disk si p si' q hne
    by_cases hc : disk = 0 ∧ Call.remove si p = .remove 0 (ascii "a")
    · obtain ⟨rfl, hc⟩ := hc
      obtain ⟨rfl, rfl⟩ := Call.remove.inj hc
      have hold : q ∉ lossyNames 0 si' := by
        intro hq
        obtain ⟨-, rfl, rfl⟩ := lossy_mem hq
        exact hne ⟨rfl, .refl _⟩
      exact ((lossyFiles_eq 0 si' q).trans (if_neg hold)).symm
    · rw [hkeep disk _ rfl hc]

def lossyStart : World Nat := build lossyBackend ⟨false, none, none, none, 2⟩ 0

def lossyOpen : Act Nat := .out (Container.bytes ⟨1, opOpenSession, 1, u32le 1⟩)

def lossyWorld : World Nat := act lossyBackend lossyStart lossyOpen

/-- The file is moved to the root of the second store. -/
def lossyMove : Act Nat :=
  .out (Container.bytes ⟨1, opMoveObject, 2, u32le 1 ++ u32le (storageId 1) ++ u32le 0⟩)

def lossyObj : Obj :=
  { handle := 1, parent := 0, size := 0, mtime := 0, fmt := fmtUndefined, isDir := false
    alive := true, si := 0, storage := storageId 0, path := ascii "a", name := ascii "a" }

theorem lossy_run : exec (next lossyBackend) lossyStart [lossyOpen] = some lossyWorld := by
  rw [exec_cons, next_of_not_stuck _ (by decide)]
  rfl

theorem lossy_moves : lossyMove.moves lossyBackend.dateText lossyWorld.st =
    some (lossyObj, 1, []) := by
  decide

/-- The write fails, the removal does not, and the answer is OK. -/
theorem move_not_kept :
    Stored lossyBackend lossyFiles (fun disk si => .files (lossyNames disk si)) ∧
      exec (next lossyBackend) lossyStart [lossyOpen] = some lossyWorld ∧
      lossyMove.moves lossyBackend.dateText lossyWorld.st = some (lossyObj, 1, []) ∧
      ¬MoveKept (lossyFiles lossyWorld.disk)
        (lossyFiles (act lossyBackend lossyWorld lossyMove).disk) lossyObj 1 (ascii "a")
        (AnsweredOk lossyWorld (act lossyBackend lossyWorld lossyMove))
        (AllSucceed lossyBackend lossyFiles (!·.isRemove) lossyWorld.disk
          (callsBetween lossyWorld (act lossyBackend lossyWorld lossyMove)))
        (AllSucceed lossyBackend lossyFiles Call.isRemove lossyWorld.disk
          (callsBetween lossyWorld (act lossyBackend lossyWorld lossyMove))) := by
  refine ⟨lossy_stored, lossy_run, lossy_moves, fun hkept => ?_⟩
  have hcopied := (hkept.done (answeredOk_of_moves lossy_moves)).1 [] (.inl rfl)
  exact absurd hcopied (by decide)

/-! ### A move that succeeds -/

/-- The bytes of the file that is moved. -/
def movedBytes : List UInt8 := [1, 2, 3]

/-- A store with one file in its root, or with nothing. -/
def movedTree (there : Bool) : Tree where
  ls dir := if dir = [] ∧ there = true then [ascii "a"] else []
  info p := if p = ascii "a" ∧ there = true then some ⟨false, 3, 0⟩ else none

theorem movedTree_ls {there : Bool} {dir n : CStr} :
    n ∈ (movedTree there).ls dir ↔ dir = [] ∧ there = true ∧ n = ascii "a" := by
  unfold movedTree
  dsimp only
  split_ifs with h <;> simp_all

theorem movedTree_entry (there : Bool) (p : CStr) :
    (movedTree there).Entry p ↔ p = ascii "a" ∧ there = true := by
  rw [Tree.Entry, Tree.below_iff]
  constructor
  · rintro ⟨n, hn, i, hi, rfl | ⟨hd, -⟩⟩
    · obtain ⟨-, hthere, rfl⟩ := movedTree_ls.mp hn
      exact ⟨rfl, hthere⟩
    · unfold movedTree at hi
      dsimp only at hi
      split_ifs at hi
      obtain rfl := Option.some.inj hi
      cases hd
  · rintro ⟨rfl, hthere⟩
    exact ⟨ascii "a", movedTree_ls.mpr ⟨rfl, hthere, rfl⟩, ⟨false, 3, 0⟩, if_pos ⟨rfl, hthere⟩,
      .inl rfl⟩

theorem movedTree_proper (there : Bool) : (movedTree there).Proper where
  plain dir _ n hn := by
    obtain ⟨-, -, rfl⟩ := movedTree_ls.mp hn
    exact ⟨by decide, by decide⟩
  short dir _ n hn := by
    obtain ⟨rfl, -, rfl⟩ := movedTree_ls.mp hn
    decide
  nodup dir _ := by
    unfold movedTree
    dsimp only
    split_ifs <;> simp

/-- Store `si` has the file where bit `si` of the state is set.  A write of its bytes sets the bit
and a removal clears it; no other change succeeds. -/
def movedRc (disk : Nat) : Call → Int × Nat
  | .write si p data len =>
    if p = ascii "a" ∧ data = movedBytes ∧ len = 3 then (0, disk ||| 2 ^ si) else (-1, disk)
  | .remove si p =>
    if p = ascii "a" ∧ disk.testBit si = true then (0, disk ^^^ 2 ^ si) else (-1, disk)
  | _ => (-1, disk)

def movedBackend : Backend Nat :=
  let trees := Backend.ofTrees (fun disk si => movedTree (disk.testBit si)) movedRc
  { trees with
    call := fun disk c =>
      match c with
      | .read si p off want =>
        let bytes := (movedBytes.drop off.toNat).take want.toNat
        (if p = ascii "a" ∧ disk.testBit si = true then ⟨bytes.length, bytes⟩ else ⟨-1, []⟩, disk)
      | c => trees.call disk c }

def movedFiles (disk si : Nat) (p : CStr) : Option Node :=
  if p = ascii "a" ∧ disk.testBit si = true then some (.file movedBytes) else none

theorem movedFiles_eq_none {disk si : Nat} {p : CStr} (h : p ≠ ascii "a" ∨ disk.testBit si = false) :
    movedFiles disk si p = none := by
  refine if_neg ?_
  rintro ⟨hp, hthere⟩
  rcases h with h | h
  · exact h hp
  · rw [hthere] at h
    cases h

theorem movedFiles_eq_some {disk si : Nat} {p : CStr} {data : List UInt8}
    (h : movedFiles disk si p = some (.file data)) :
    (p = ascii "a" ∧ disk.testBit si = true) ∧ data = movedBytes := by
  unfold movedFiles at h
  split at h
  · rename_i hthere
    cases h
    exact ⟨hthere, rfl⟩
  · cases h

theorem movedBackend_rc_read {disk si : Nat} {p : CStr}
    (there : p = ascii "a" ∧ disk.testBit si = true) (want : Int) :
    movedBackend.rc disk (.read si p 0 want) = (movedBytes.take want.toNat).length :=
  congrArg ReadResult.rc (if_pos there)

theorem movedBackend_got {disk si : Nat} {p : CStr}
    (there : p = ascii "a" ∧ disk.testBit si = true) (want : Int) :
    movedBackend.got disk si p want = movedBytes.take want.toNat :=
  congrArg ReadResult.data (if_pos there)

/-- A write that succeeds writes the file, and puts the store among those that have it. -/
theorem movedRc_write (disk si : Nat) (p data : List UInt8) (len : Int) :
    movedRc disk (.write si p data len) = (-1, disk) ∨
      p = ascii "a" ∧ data = movedBytes ∧
        movedRc disk (.write si p data len) = (0, disk ||| 2 ^ si) := by
  by_cases hcond : p = ascii "a" ∧ data = movedBytes ∧ len = 3
  · exact .inr ⟨hcond.1, hcond.2.1, if_pos hcond⟩
  · exact .inl (if_neg hcond)

theorem movedRc_remove (disk si : Nat) (p : CStr) :
    movedRc disk (.remove si p) = (-1, disk) ∨
      p = ascii "a" ∧ disk.testBit si = true ∧
        movedRc disk (.remove si p) = (0, disk ^^^ 2 ^ si) := by
  by_cases hcond : p = ascii "a" ∧ disk.testBit si = true
  · exact .inr ⟨hcond.1, hcond.2, if_pos hcond⟩
  · exact .inl (if_neg hcond)

theorem moved_stored :
    Stored movedBackend movedFiles fun disk si => movedTree (disk.testBit si) where
  holds :=
    { proper := fun _ _ => movedTree_proper _
      listdir := fun _ _ _ _ => rfl
      listdir_view := fun _ _ _ => rfl
      getInfo := fun _ _ _ _ _ _ => rfl
      getInfo_view := fun _ _ _ => rfl }
  entry disk si p _ := by
    rw [movedTree_entry, movedFiles]
    split <;> simp [*]
  node disk si p i hentry hi := by
    rw [movedTree_entry] at hentry
    obtain rfl : (⟨false, 3, 0⟩ : Info) = i := Option.some.inj ((if_pos hentry).symm.trans hi)
    exact ⟨movedBytes, if_pos hentry, rfl⟩
  query disk c hc := by cases c <;> first | rfl | cases hc
  read disk si p want data h := by
    obtain ⟨hthere, rfl⟩ := movedFiles_eq_some h
    rw [movedBackend_rc_read hthere, movedBackend_got hthere, List.length_take]
    refine ⟨by omega, ?_⟩
    rw [Int.toNat_natCast, List.take_take, Nat.min_eq_left (Nat.min_le_left _ _)]
  write disk si p data h := by
    show movedFiles (movedRc disk (.write si p data data.length)).2 si p = _
    have hrc : (movedRc disk (.write si p data data.length)).1 = 0 := h
    rcases movedRc_write disk si p data data.length with hkept | ⟨rfl, rfl, hput⟩
    · rw [hkept] at hrc
      cases hrc
    · rw [hput]
      exact if_pos ⟨rfl, by simp⟩
  write_frame disk si p data len si' q hne := by
    show movedFiles (movedRc disk (.write si p data len)).2 si' q = _
    rcases movedRc_write disk si p data len with hkept | ⟨rfl, rfl, hput⟩
    · rw [hkept]
    · rw [hput, movedFiles, movedFiles, Nat.testBit_or, Nat.testBit_two_pow]
      by_cases hsi : si = si'
      · have hq : q ≠ ascii "a" := fun hq => hne ⟨hsi.symm, hq⟩
        rw [if_neg fun h => hq h.1, if_neg fun h => hq h.1]
      · rw [decide_eq_false hsi, Bool.or_false]
  makeDir disk si p h := by
    have hrc : (movedRc disk (.makeDir si p)).1 = 0 := h
    cases hrc
  makeDir_frame _ _ _ _ _ _ := rfl
  remove disk si p h q _ := by
    show movedFiles (movedRc disk (.remove si p)).2 si q = none
    have hrc : (movedRc disk (.remove si p)).1 = 0 := h
    rcases movedRc_remove disk si p with hkept | ⟨-, hthere, hput⟩
    · rw [hkept] at hrc
      cases hrc
    · rw [hput]
      exact movedFiles_eq_none (.inr (by simp [hthere]))
  remove_frame disk si p si' q hne := by
    show movedFiles (movedRc disk (.remove si p)).2 si' q = _
    rcases movedRc_remove disk si p with hkept | ⟨rfl, -, hput⟩
    · rw [hkept]
    · rw [hput, movedFiles, movedFiles, Nat.testBit_xor, Nat.testBit_two_pow]
      by_cases hsi : si = si'
      · have hq : q ≠ ascii "a" := by
          rintro rfl
          exact hne ⟨hsi.symm, .refl _⟩
        rw [if_neg fun h => hq h.1, if_neg fun h => hq h.1]
      · rw [decide_eq_false hsi, Bool.xor_false]

/-- The file is in the first of two stores. -/
def movedStart : World Nat := build movedBackend ⟨false, none, none, none, 2⟩ 1

def movedWorld : World Nat := act movedBackend movedStart lossyOpen

def movedObj : Obj := { lossyObj with size := 3 }

theorem moved_run : exec (next movedBackend) movedStart [lossyOpen] = some movedWorld := by
  rw [exec_cons, next_of_not_stuck _ (by decide)]
  rfl

theorem moved_moves : lossyMove.moves movedBackend.dateText movedWorld.st =
    some (movedObj, 1, []) := by
  decide

/-- The calls of the move. -/
theorem moved_calls : (callsBetween movedWorld (act movedBackend movedWorld lossyMove)) =
    [.read 0 (ascii "a") 0 3, .write 1 (ascii "a") movedBytes 3, .remove 0 (ascii "a"),
      .listdir 0 [], .listdir 1 [], .getInfo 1 (ascii "a")] := by
  decide


/-- The file is moved with its three bytes. -/
theorem moves_kept_iff_sample :
    movedFiles (act movedBackend movedWorld lossyMove).disk 1 (ascii "a") =
        some (.file [1, 2, 3]) ∧
      MoveKept (movedFiles movedWorld.disk)
        (movedFiles (act movedBackend movedWorld lossyMove).disk) movedObj 1
        (joinPath slash [] (ascii "a"))
        (AnsweredOk movedWorld (act movedBackend movedWorld lossyMove))
        (AllSucceed movedBackend movedFiles (!·.isRemove) movedWorld.disk
          (callsBetween movedWorld (act movedBackend movedWorld lossyMove)))
        (AllSucceed movedBackend movedFiles Call.isRemove movedWorld.disk
          (callsBetween movedWorld (act movedBackend movedWorld lossyMove))) := by
  have hscan := (refreshed_rescan moved_stored.holds (by decide)
    ⟨(⟨false, none, none, none, 2⟩ : MtpOpts).initial, (1 : Nat), [], false⟩).mirrors
  refine ⟨by decide,
    (moves_kept_iff moved_stored (by decide) moved_run hscan (by decide) moved_moves).mpr ?_⟩
  rw [moved_calls]
  constructor
  · refine ⟨fun _ data h => ?_, fun _ => rfl, (absurd · (by decide)), fun _ => rfl, fun _ => rfl,
      fun _ => rfl, trivial⟩
    rw [(movedFiles_eq_some h).2]
    rfl
  · exact ⟨(absurd · (by decide)), (absurd · (by decide)), fun _ => rfl, (absurd · (by decide)),
      (absurd · (by decide)), (absurd · (by decide)), trivial⟩

end Usbip.Mtp
