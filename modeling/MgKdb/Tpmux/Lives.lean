import Mathlib.Algebra.BigOperators.Group.Finset.Piecewise
import Mathlib.Data.List.Flatten
import MgKdb.Foundation.Run
import MgKdb.Journal.Append
import MgKdb.Tpmux.Handover

/-!
# The journal from one start to the next

What the subscriptions have written is counted by the next start of the program, and may be
replayed by another one that takes this one for its tickerplant.
-/

namespace MgKdb

open Foundation

universe u

namespace KdbJournal

/-!
## One start
-/

section Start

variable {env : InitEnv} {path : String} {opts : Options} {content : List UInt8}
  {old : List Payload}

/-- A file that is ready to be written to: it is a journal, and the offset is at its end. -/
structure Ready (content : List UInt8) (old : List Payload) (file : OpenFile UInt8) : Prop where
  kept : content <+: file.bytes
  framed : exists hdr, hdr.length = 8 ∧ file.bytes = hdr ++ (old.map Payload.bytes).flatten
  atEnd : file.off = file.bytes.length

theorem ready_of_seeks (hopts : opts.readOnly = false) (hjnl : IsJournal content old)
    (hseeks : Seeks env opts content) {msg_count : Nat}
    (hresult : (init env path opts content).result = .journal msg_count) :
    Ready content old (init env path opts content).file := by
  rcases init_opened path hresult with ⟨hopen, hfstat⟩
  have hends : (content = [] ∧ forall n, env.writeHeader = .ok n -> 8 <= n) ∨
      (8 < content.length ∧ opts.validateAndCountUponInit = true) := by
    rcases hseeks with hbad | hbad | hends
    · exact absurd hopen hbad
    · exact absurd hfstat hbad
    · exact hends
  rcases init_journal path hopts hresult with ⟨hlen, hfile⟩ | ⟨hnil, n, hn, hfile⟩ | ⟨hne, hscan⟩
  · rw [hfile]
    rcases hjnl with ⟨hnil, _⟩ | ⟨hdr, hhdr, hcontent⟩
    · rw [hnil] at hlen
      cases hlen
    · exact ⟨List.prefix_rfl, ⟨hdr, hhdr, hcontent⟩, rfl⟩
  · rw [hfile]
    rcases hjnl with ⟨_, hold⟩ | ⟨hdr, hhdr, hcontent⟩
    · have hfull : header.take n = header := by
        rcases hends with ⟨_, hwhole⟩ | ⟨hlen, _⟩
        · exact List.take_of_length_le (hwhole n hn)
        · rw [hnil] at hlen
          cases hlen
      refine ⟨by rw [hnil]; exact List.nil_prefix, ⟨header, rfl, ?_⟩, headed_off n⟩
      rw [headed_bytes, hfull, hold, List.map_nil, List.flatten_nil, List.append_nil]
    · have hlen := congrArg List.length hcontent
      rw [hnil, List.length_append, hhdr, List.length_nil] at hlen
      omega
  · rcases hends with ⟨hnil, _⟩ | hboth
    · exact absurd hnil hne
    · exact absurd hboth hscan

theorem Ready.appended {file : OpenFile UInt8} (h : Ready content old file)
    (hold : forall p, p ∈ old -> p.WellFormed) {new : List Payload}
    (hnew : forall p, p ∈ new -> p.WellFormed) :
    Appended content old new (file.writeAll (new.map Payload.bytes)).bytes := by
  rcases h.framed with ⟨hdr, hhdr, hfile⟩
  refine appended_of_eq hhdr (hfile ▸ h.kept) hold hnew ?_
  rw [OpenFile.writeAll_at_end _ h.atEnd, hfile]

structure Counts (env : InitEnv) (opts : Options) (total : Nat) : Prop where
  openFile : env.openFile = .ok ()
  fstat : env.fstat = .ok ()
  scanFstat : env.scanFstat = .ok ()
  scanMmap : env.scanMmap = .ok ()
  lseek : env.lseek = .ok ()
  validate : opts.validateAndCountUponInit = true
  enough : total <= opts.maxReplayCount.toNat

theorem init_counts {hdr : List UInt8} (hhdr : hdr.length = 8) {ps : List Payload}
    (hwf : forall p, p ∈ ps -> p.WellFormed) (hfit : forall p, p ∈ ps -> p.DictsFit)
    (henv : Counts env opts ps.length) :
    (init env path opts (hdr ++ (ps.map Payload.bytes).flatten)).result = .journal ps.length := by
  obtain ⟨content, hcontent⟩ : exists content, content = hdr ++ (ps.map Payload.bytes).flatten :=
    ⟨_, rfl⟩
  have hlen : content.length = 8 + (Payload.bytesAll ps).length := by
    rw [hcontent, List.length_append, hhdr, Payload.bytesAll_eq_flatten]
  have hmany := Payload.length_le_length_bytesAll ps
  have hinit : init env path opts content =
      validate env opts content.length (OpenFile.opened content) := by
    rw [init, henv.openFile, henv.fstat]
    dsimp only
    rw [if_neg (show ¬ content.length < 8 by omega),
      if_neg (show ¬ content.length = 0 by omega), ite_self]
  rw [<- hcontent, hinit, validate]
  by_cases hscan : 8 < content.length
  · rcases scansAs_of_framed hhdr hwf hfit opts.maxReplayCount.toNat henv.enough
      opts.maxReplayCount.toNat_lt with ⟨calls, hcalls, _⟩
    rw [<- hcontent] at hcalls
    have hjnl : filterJnl env (OpenFile.opened content).bytes opts.maxReplayCount.toNat =
        .done ps.length ps.length := by
      rw [filterJnl, henv.scanFstat, henv.scanMmap]
      change (filterMsgs content opts.maxReplayCount.toNat counter ()).2.getD .undefined = _
      rw [hcalls]
      rfl
    rw [if_pos ⟨hscan, henv.validate⟩, hjnl, henv.lseek]
  · have hnone : ps.length = 0 := by omega
    rw [if_neg (fun h => hscan h.left), hnone]

end Start

/-!
## Many starts
-/

/-- One start of the program: its system calls, and what it writes if it gets a journal. -/
structure Life where
  env : InitEnv
  opts : Options
  new : List Payload
  writable : opts.readOnly = false
  wellFormed : forall p, p ∈ new -> p.WellFormed

structure Legacy where
  content : List UInt8
  old : List Payload

namespace Legacy

variable (path : String)

def next (s : Legacy) (l : Life) : Legacy :=
  match (init l.env path l.opts s.content).result with
  | .journal _ =>
      ⟨((init l.env path l.opts s.content).file.writeAll (l.new.map Payload.bytes)).bytes,
        s.old ++ l.new⟩
  | _ => ⟨(init l.env path l.opts s.content).file.bytes, s.old⟩

def Grows (s : Legacy) (l : Life) : Prop :=
  (exists n, (init l.env path l.opts s.content).result = .journal n) ->
    Appended s.content s.old l.new (s.next path l).content

/--
A start that writes finds more than a header and counts it, or an empty file and writes a whole
header; one that does not write may leave a lone header.
-/
def InOrder (s : Legacy) (l : Life) : Prop :=
  (exists n, (init l.env path l.opts s.content).result = .journal n) ->
    Seeks l.env l.opts s.content ∨ (s.content ≠ [] ∧ l.new = [])

structure Sound (s : Legacy) : Prop where
  isJournal : IsJournal s.content s.old
  wellFormed : forall p, p ∈ s.old -> p.WellFormed

variable {path}

theorem next_of_journal {s : Legacy} {l : Life} {n : Nat}
    (h : (init l.env path l.opts s.content).result = .journal n) :
    s.next path l =
      ⟨((init l.env path l.opts s.content).file.writeAll (l.new.map Payload.bytes)).bytes,
        s.old ++ l.new⟩ := by
  rw [next, h]

theorem Appended.isJournal {content file : List UInt8} {old new : List Payload}
    (h : Appended content old new file) : IsJournal file (old ++ new) :=
  Or.inr h.framed

theorem bytes_of_no_journal {s : Legacy} {l : Life}
    (h : ¬ exists n, (init l.env path l.opts s.content).result = .journal n) :
    (init l.env path l.opts s.content).file.bytes = s.content := by
  have hvalidate : forall size,
      (validate l.env l.opts size (OpenFile.opened s.content)).file.bytes = s.content := by
    intro size
    rw [validate]
    split
    · split
      · rfl
      · split <;> rfl
      · rfl
    · rfl
  rw [init] at h ⊢
  rcases hopen : l.env.openFile with e | ok
  · rfl
  · rcases hfstat : l.env.fstat with e | ok
    · rfl
    · simp only [hopen, hfstat, l.writable, Bool.false_eq_true, if_false] at h ⊢
      by_cases hempty : s.content.length = 0
      · rw [if_pos hempty] at h ⊢
        rcases hheader : l.env.writeHeader with e | n
        · rfl
        · rw [hheader] at h
          exact absurd ⟨0, rfl⟩ h
      · rw [if_neg hempty]
        exact hvalidate _

theorem length_writeAll (xss : List (List UInt8)) : forall f : OpenFile UInt8,
    (f.writeAll xss).bytes.length = max f.bytes.length (f.off + xss.flatten.length) := by
  induction xss with
  | nil =>
      intro f
      have hoff := f.off_le
      rw [OpenFile.writeAll, List.flatten_nil, List.length_nil]
      omega
  | cons xs xss ih =>
      intro f
      have hoff := f.off_le
      rw [OpenFile.writeAll, ih, OpenFile.write_off, OpenFile.write_bytes, List.flatten_cons,
        List.length_append, List.length_append, List.length_append, List.length_drop,
        List.length_take]
      omega

theorem flatten_pos {ps : List Payload} (h : ps ≠ []) :
    0 < ((ps.map Payload.bytes).flatten).length := by
  have hmany := Payload.length_le_length_bytesAll ps
  rw [Payload.bytesAll_eq_flatten] at hmany
  have := List.length_pos_of_ne_nil h
  omega

theorem not_appended_of_length {content file : List UInt8} {old new : List Payload}
    (h : file.length < 8 + ((old ++ new).map Payload.bytes).flatten.length) :
    ¬ Appended content old new file := by
  intro happ
  rcases happ.framed with ⟨hdr, hhdr, hfile⟩
  have hlen := congrArg List.length hfile
  rw [List.length_append, hhdr] at hlen
  omega

theorem grows_iff (s : Legacy) (l : Life) (hs : s.Sound) : s.Grows path l <-> s.InOrder path l := by
  refine forall_congr' fun hjnl => ?_
  rcases hjnl with ⟨n, hn⟩
  rw [next_of_journal hn]
  dsimp only
  by_cases hseeks : Seeks l.env l.opts s.content
  · exact iff_of_true
      ((ready_of_seeks l.writable hs.isJournal hseeks hn).appended hs.wellFormed l.wellFormed)
      (Or.inl hseeks)
  rw [or_iff_right hseeks]
  rcases init_opened path hn with ⟨hopen, hfstat⟩
  by_cases hnil : s.content = []
  · -- the header was cut short
    refine iff_of_false (not_appended_of_length ?_) (fun h => h.left hnil)
    have hold : s.old = [] := by
      rcases hs.isJournal with ⟨_, hold⟩ | ⟨hdr, hhdr, hcontent⟩
      · exact hold
      · rw [hnil] at hcontent
        have := congrArg List.length hcontent
        rw [List.length_append, hhdr, List.length_nil] at this
        omega
    rcases init_journal path l.writable hn with ⟨hlen, _⟩ | ⟨_, k, hk, hfile⟩ | ⟨hne, _⟩
    · rw [hnil] at hlen
      cases hlen
    · have hshort : k < 8 := by
        by_contra hlong
        refine hseeks (Or.inr (Or.inr (Or.inl ⟨hnil, fun k' hk' => ?_⟩)))
        rw [hk] at hk'
        rcases Except.ok.inj hk' with rfl
        omega
      rw [hfile, OpenFile.writeAll_at_end _ (headed_off k), headed_bytes, List.length_append,
        List.length_take, hold, List.nil_append]
      have hheader : header.length = 8 := rfl
      omega
    · exact absurd hnil hne
  · rw [and_iff_right hnil]
    have hscan : ¬ (8 < s.content.length ∧ l.opts.validateAndCountUponInit = true) :=
      fun h => hseeks (Or.inr (Or.inr (Or.inr h)))
    rw [init_at_front path l.writable hopen hfstat hnil hscan]
    rcases hs.isJournal with ⟨hempty, _⟩ | ⟨hdr, hhdr, hcontent⟩
    · exact absurd hempty hnil
    by_cases hnew : l.new = []
    · refine iff_of_true (appended_of_eq hhdr (hcontent ▸ List.prefix_rfl) hs.wellFormed
        l.wellFormed ?_) hnew
      rw [hnew, hcontent]
      exact (List.append_nil _).symm
    · refine iff_of_false (not_appended_of_length ?_) hnew
      -- the file is overwritten from its front on
      rw [length_writeAll, List.map_append, List.flatten_append, List.length_append]
      have hpos := flatten_pos hnew
      have hlen := congrArg List.length hcontent
      rw [List.length_append, hhdr] at hlen
      change max s.content.length (0 + _) < _
      omega

theorem sound_next (s : Legacy) (l : Life) (hs : s.Sound) (h : s.InOrder path l) :
    (s.next path l).Sound := by
  by_cases hjnl : exists n, (init l.env path l.opts s.content).result = .journal n
  · have happ := (grows_iff s l hs).mpr h hjnl
    rcases hjnl with ⟨n, hn⟩
    rw [next_of_journal hn] at happ ⊢
    refine ⟨Appended.isJournal happ, fun p hp => ?_⟩
    rcases List.mem_append.mp hp with hp | hp
    · exact hs.wellFormed p hp
    · exact l.wellFormed p hp
  · have hbytes := bytes_of_no_journal hjnl
    have hnext : s.next path l = s := by
      rw [next]
      split
      · rename_i n hn
        exact absurd ⟨n, hn⟩ hjnl
      · rw [hbytes]
    rw [hnext]
    exact hs

/--
Over any number of starts, from an empty file on, whatever is written stands behind what there was
exactly when every start is in order.
-/
theorem grows_along_iff (path : String) (lives : List Life) :
    Along (next path) (Grows path) ⟨[], []⟩ lives <->
      Along (next path) (InOrder path) ⟨[], []⟩ lives :=
  along_iff Sound (fun s l _ hs => grows_iff s l hs) (fun s l _ hs h => sound_next s l hs h)
    ⟨[], []⟩ ⟨Or.inl ⟨rfl, rfl⟩, by simp⟩

end Legacy

end KdbJournal

/-!
## What the subscriptions have written
-/

theorem exists_map_eq {α : Type u} {β : Type u} {f : α -> β} {P : α -> Prop} : forall bs : List β,
    (forall b, b ∈ bs -> exists a, P a ∧ f a = b) ->
      exists as : List α, as.map f = bs ∧ forall a, a ∈ as -> P a
  | [], _ => ⟨[], rfl, by simp⟩
  | b :: bs, h => by
      rcases h b List.mem_cons_self with ⟨a, ha, rfl⟩
      rcases exists_map_eq bs (fun b hb => h b (List.mem_cons_of_mem _ hb)) with ⟨as, rfl, has⟩
      exact ⟨a :: as, rfl, List.forall_mem_cons.mpr ⟨ha, has⟩⟩

section Pipe

variable {ι : Type} [DecidableEq ι] {tps : ι -> Tickerplant}

theorem PipeReaches.exists_payloads {s : PipeState ι} (h : PipeReaches tps s)
    (hexact : forall i, (tps i).AnswersAlone) :
    exists new : List Payload, new.map Payload.bytes = s.written.map Prod.snd ∧
      forall p, p ∈ new -> p.WellFormed ∧ p.DictsFit := by
  refine exists_map_eq _ fun b hb => ?_
  rcases List.mem_map.mp hb with ⟨w, hw, rfl⟩
  have hmem : w.2 ∈ s.writtenBy w.1 :=
    List.mem_map.mpr ⟨w, List.mem_filter.mpr ⟨hw, by simp⟩, rfl⟩
  rw [h.writtenBy_eq (hexact w.1)] at hmem
  cases hrep : s.replayed w.1 with
  | false =>
      rw [hrep] at hmem
      cases hmem
  | true =>
      rw [hrep, if_pos rfl] at hmem
      rcases List.mem_map.mp hmem with ⟨p, hp, hbytes⟩
      have hin : p ∈ (tps w.1).history :=
        List.mem_of_mem_take (List.mem_of_mem_drop (List.mem_of_mem_filter hp))
      exact ⟨p, ⟨(tps w.1).wellFormed p hin, (tps w.1).dictsFit p hin⟩, hbytes⟩

theorem sum_writtenBy [Fintype ι] (s : PipeState ι) :
    ∑ i, (s.writtenBy i).length = s.written.length := by
  unfold PipeState.writtenBy
  induction s.written with
  | nil => simp
  | cons w ws ih =>
      have hcons : forall i, (((w :: ws).filter (fun w => w.1 = i)).map Prod.snd).length =
          (if w.1 = i then 1 else 0) + ((ws.filter (fun w => w.1 = i)).map Prod.snd).length := by
        intro i
        rw [List.filter_cons]
        by_cases hi : w.1 = i
        · simp [hi, Nat.add_comm]
        · simp [hi]
      rw [Finset.sum_congr rfl (fun i _ => hcons i), Finset.sum_add_distrib, ih,
        Finset.sum_ite_eq Finset.univ w.1, if_pos (Finset.mem_univ _), List.length_cons,
        Nat.add_comm]

/--
Whatever the order in which the subscriptions come to write: the next start counts what the
journal had, and what each of them has written.
-/
theorem PipeReaches.restart_counts [Fintype ι] {s : PipeState ι} (h : PipeReaches tps s)
    (hexact : forall i, (tps i).AnswersAlone)
    {env env' : InitEnv} (path : String) {opts opts' : Options} {content : List UInt8}
    {old : List Payload} (hopts : opts.readOnly = false) (hjnl : IsJournal content old)
    (hold : forall p, p ∈ old -> p.WellFormed ∧ p.DictsFit)
    (hseeks : KdbJournal.Seeks env opts content) {n : Nat}
    (hresult : (KdbJournal.init env path opts content).result = .journal n)
    (henv : KdbJournal.Counts env' opts' (old.length + ∑ i, (s.writtenBy i).length)) :
    (KdbJournal.init env' path opts' ((KdbJournal.init env path opts content).file.writeAll
        (s.written.map Prod.snd)).bytes).result =
      .journal (old.length + ∑ i, (s.writtenBy i).length) := by
  rcases h.exists_payloads hexact with ⟨new, hnew, hgood⟩
  have hlen : (old ++ new).length = old.length + ∑ i, (s.writtenBy i).length := by
    have hmap := congrArg List.length hnew
    rw [List.length_map, List.length_map] at hmap
    rw [sum_writtenBy, List.length_append, hmap]
  have hready := KdbJournal.ready_of_seeks hopts hjnl hseeks hresult
  have happ := hready.appended (fun p hp => (hold p hp).left) (fun p hp => (hgood p hp).left)
  rw [hnew] at happ
  rcases happ.framed with ⟨hdr, hhdr, hfile⟩
  rw [hfile, <- hlen]
  have hall : forall p, p ∈ old ++ new -> p.WellFormed ∧ p.DictsFit := by
    intro p hp
    rcases List.mem_append.mp hp with hp | hp
    · exact hold p hp
    · exact hgood p hp
  exact KdbJournal.init_counts hhdr (fun p hp => (hall p hp).left) (fun p hp => (hall p hp).right)
    (hlen ▸ henv)

end Pipe

/-- Three calls are written to an empty file. -/
theorem PipeReaches.restart_counts_between :
    (KdbJournal.init KdbJournal.smooth "" ⟨false, true, 9⟩
      ((KdbJournal.init KdbJournal.smooth "" ⟨false, true, 9⟩ []).file.writeAll
        (between.written.map Prod.snd)).bytes).result =
      .journal (0 + ∑ i, (between.writtenBy i).length) := by
  have hheader : forall n, KdbJournal.smooth.writeHeader = .ok n -> 8 <= n := by
    intro n hn
    rcases Except.ok.inj hn with rfl
    exact Nat.le_refl 8
  exact PipeReaches.restart_counts reaches_between (fun _ => callAndCall_alone) "" rfl
    (Or.inl ⟨rfl, rfl⟩) (by simp) (Or.inr (Or.inr (Or.inl ⟨rfl, hheader⟩))) rfl
    ⟨rfl, rfl, rfl, rfl, rfl, rfl, by decide +kernel⟩

/-!
## A multiplexer behind a multiplexer
-/

theorem isUpdCall_inter (tbl_names tbl_names' : List (List UInt8)) :
    forall syms : List (Option NulText),
      isUpdCall updName (tbl_names.filter (fun tbl => decide (tbl ∈ tbl_names'))) syms =
        (isUpdCall updName tbl_names' syms && isUpdCall updName tbl_names syms)
  | [] | [_] | [_, _] | none :: _ :: _ :: _ | some _ :: none :: _ :: _ => by simp [isUpdCall]
  | some fn :: some tbl :: third :: more => by
      rw [isUpdCall, isUpdCall, isUpdCall, <- Bool.decide_and]
      refine decide_eq_decide.mpr ?_
      rw [List.mem_filter, decide_eq_true_eq]
      exact ⟨fun h => ⟨⟨h.left, h.right.right⟩, h.left, h.right.left⟩,
        fun h => ⟨h.left.left, h.right.right, h.left.right⟩⟩

theorem isUpd_inter (tbl_names tbl_names' : List (List UInt8)) (p : Payload) :
    p.isUpd updName (tbl_names.filter (fun tbl => decide (tbl ∈ tbl_names'))) =
      (p.isUpd updName tbl_names' && p.isUpd updName tbl_names) := by
  cases p with
  | list attr parts => exact isUpdCall_inter tbl_names tbl_names' (parts.map Payload.symbol)
  | _ => rfl

/--
A replay of what a replay has written gives what the first replay would have given for the tables
that both want.
-/
theorem replay_cascade {hdr hdr' : List UInt8} (hhdr : hdr.length = 8) (hhdr' : hdr'.length = 8)
    {ps : List Payload} (hwf : forall p, p ∈ ps -> p.WellFormed)
    (hfit : forall p, p ∈ ps -> p.DictsFit)
    (hsize : (hdr ++ (ps.map Payload.bytes).flatten).length < 2 ^ 63) {counts : TpMsgCounts}
    {u : Nat} (hs : counts.numMsgTotal.toNat <= u) (hu : u <= ps.length)
    (tbl_names tbl_names' : List (List UInt8)) (included : UInt32) :
    (kdbSubscribeAndReplay (hdr' ++ (kdbSubscribeAndReplay
        (hdr ++ (ps.map Payload.bytes).flatten) u tbl_names counts).1.flatten)
        (kdbSubscribeAndReplay (hdr ++ (ps.map Payload.bytes).flatten) u tbl_names counts).1.length
        tbl_names' ⟨0, included⟩).1 =
      (kdbSubscribeAndReplay (hdr ++ (ps.map Payload.bytes).flatten) u
        (tbl_names.filter (fun tbl => decide (tbl ∈ tbl_names'))) counts).1 := by
  have hfirst := fun tbls => congrArg Prod.fst (kdbSubscribeAndReplay_eq hhdr hwf hsize hs hu tbls
    (fun p hp => hfit p (List.mem_of_mem_take hp)))
  dsimp only at hfirst
  rw [hfirst, hfirst]
  obtain ⟨out, hout⟩ : exists out, out = ((ps.take u).drop counts.numMsgTotal.toNat).filter
      (Payload.isUpd updName tbl_names) := ⟨_, rfl⟩
  have hsub : out.Sublist ps := by
    rw [hout]
    exact List.filter_sublist.trans ((List.drop_sublist _ _).trans (List.take_sublist _ _))
  have hselected : selected tbl_names counts.numMsgTotal.toNat (ps.take u) =
      out.map Payload.bytes := by rw [hout, selected]
  have hsize' : (hdr' ++ (out.map Payload.bytes).flatten).length < 2 ^ 63 := by
    have hle := (hsub.map Payload.bytes).flatten.length_le
    rw [List.length_append] at hsize ⊢
    omega
  have hzero : (⟨0, included⟩ : TpMsgCounts).numMsgTotal.toNat <= out.length := Nat.zero_le _
  have hsecond := congrArg Prod.fst (kdbSubscribeAndReplay_eq hhdr'
    (fun p hp => hwf p (hsub.subset hp)) hsize' hzero (Nat.le_refl out.length) tbl_names'
    (fun p hp => hfit p (hsub.subset (List.mem_of_mem_take hp))))
  dsimp only at hsecond
  rw [hselected, List.length_map, hsecond, List.take_length, selected, selected, hout]
  change ((List.filter _ _).drop 0 |>.filter _).map _ = _
  rw [List.drop_zero, List.filter_filter]
  refine congrArg (List.map Payload.bytes) (List.filter_congr fun p _ => ?_)
  exact (isUpd_inter tbl_names tbl_names' p).symm

theorem replay_cascade_upd :
    (kdbSubscribeAndReplay ([255, 1, 0, 0, 0, 0, 0, 0] ++ (kdbSubscribeAndReplay
        ([255, 1, 0, 0, 0, 0, 0, 0] ++ ([updCall, updCall].map Payload.bytes).flatten) 2 [[116]]
        ⟨1, 0⟩).1.flatten)
        (kdbSubscribeAndReplay ([255, 1, 0, 0, 0, 0, 0, 0] ++
          ([updCall, updCall].map Payload.bytes).flatten) 2 [[116]] ⟨1, 0⟩).1.length
        [[116], [117]] ⟨0, 0⟩).1 =
      (kdbSubscribeAndReplay ([255, 1, 0, 0, 0, 0, 0, 0] ++
        ([updCall, updCall].map Payload.bytes).flatten) 2
        ([[116]].filter (fun tbl => decide (tbl ∈ [[116], [117]]))) ⟨1, 0⟩).1 :=
  replay_cascade rfl rfl updCalls_wellFormed updCalls_dictsFit updCalls_small (by decide)
    (by decide) [[116]] [[116], [117]] 0

end MgKdb
