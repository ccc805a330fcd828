import TuxBot.Irc.ClientClosed

/-! The send path when a socket says that it would block by the names that SSL has for it. -/
namespace TuxBot.Irc

open TuxBot.Lua TuxBot.Lua.Eff TuxBot.Machine

/-- What an attempt to write comes to: all is written, or a first part and then the socket would block
or is closed. -/
inductive Written where
  | all
  | blocked (bytessent : Nat)
  | closed (bytessent : Nat)
  deriving DecidableEq

/-- The errors of an operation that would block: that of a plain socket and those of SSL. -/
inductive BlockName where
  | timeout
  | wantread
  | wantwrite
  deriving DecidableEq

def BlockName.text : BlockName → Bytes
  | timeout => "timeout"
  | wantread => "wantread"
  | wantwrite => "wantwrite"

def Written.result (name : BlockName) : Written → SendResult
  | all => .sent
  | blocked bytessent => .error name.text bytessent
  | closed bytessent => .error "closed" bytessent

/-- A call of `_send`, or an event of the socket being writable. -/
inductive WriteOp where
  | send (str : Bytes)
  | writable
  deriving DecidableEq

/-- One step of a trace: what is done, what the socket makes of it, and what it says in place of
`timeout`. -/
structure Write where
  op : WriteOp
  written : Written
  name : BlockName
  deriving DecidableEq

/-- The step on a Client whose socket says `name`. -/
def Write.apply (env : Env) (x : Write) (name : BlockName) (w : World) : World :=
  let env := { env with send := fun _ _ => x.written.result name }
  match x.op with
  | .send str => ((Client.send env str).pcall w).2
  | .writable => ((Client.onWritable env).pcall w).2

/-- What is given to the socket while `buf` is buffered, if anything. -/
def WriteOp.asked (buf : Bytes) : WriteOp → Option Bytes
  | send str => if buf = [] then some str else none
  | writable => if buf = [] then none else some buf

/-- A plain and an SSL connection side by side. `closed` notes that the socket reported it. -/
structure Twins where
  plain : World
  ssl : World
  closed : Bool

def Twins.step (env : Env) (t : Twins) (x : Write) : Option Twins :=
  some {
    plain := x.apply env .timeout t.plain
    ssl := x.apply env x.name t.ssl
    closed := t.closed || match (t.plain.sendbuf.bind x.op.asked), x.written with
      | some _, .closed _ => true
      | _, _ => false }

def Twins.start (w : World) : Twins := ⟨w, w, false⟩

/-- The Client can send, over the socket `conn`. -/
structure Sending (conn : Nat) (buf : Bytes) (w : World) : Prop where
  state : w.session.state = .connected ∨ w.session.state = .registering
  conn : w.conn = some conn
  sendbuf : w.sendbuf = some buf

/-- What the socket accepted and what is buffered is all that was given to `_send`. -/
def Whole (conn : Nat) (buf : Bytes) (w : World) : Prop :=
  traffic w.wire conn ++ buf = traffic w.passed conn

/-- Both have the same in `_sendbuf`, and unless the socket reported `closed` SSL drops nothing. -/
def Twins.Alike (conn : Nat) (t : Twins) : Prop :=
  t.ssl.sendbuf = t.plain.sendbuf ∧ (t.closed = false → ∃ buf ∈ t.ssl.sendbuf, Whole conn buf t.ssl)

/-- A write that SSL says would block has written everything all the same. -/
def Twins.NothingLeft (t : Twins) (x : Write) : Prop :=
  ∀ data, t.plain.sendbuf.bind x.op.asked = some data → ∀ bytessent,
    x.written = .blocked bytessent → x.name ≠ .timeout → data.length ≤ bytessent

variable {env : Env} {w u : World} {conn : Nat} {buf str : Bytes} {x : Write} {name own : BlockName}
  {s t : Twins} {trace : List Write}

/-! ### One step -/

/-- What is left of `data` once the socket has said what came of it. -/
def Written.kept (data : Bytes) (name : BlockName) : Written → Bytes
  | blocked bytessent => if name = .timeout then data.drop bytessent else []
  | _ => []

/-- What is buffered after a step. -/
def Write.buffered (x : Write) (name : BlockName) (buf : Bytes) : Bytes :=
  match x.op.asked buf, x.op with
  | some data, _ => x.written.kept data name
  | none, .send str => buf ++ str
  | none, .writable => buf

/-- The bytes that a step gives to `_send`, and those that the socket accepts. -/
def Write.given (x : Write) : Bytes :=
  match x.op with
  | .send str => str
  | .writable => []

def Write.accepted (x : Write) (name : BlockName) (buf : Bytes) : Bytes :=
  match x.op.asked buf with
  | some data => (x.written.result name).accepted data
  | none => []

/-- What a step does to a Client that can send. -/
structure Stepped (conn : Nat) (x : Write) (name : BlockName) (buf : Bytes) (w u : World) : Prop where
  sending : Sending conn (x.buffered name buf) u
  wire : traffic u.wire conn = traffic w.wire conn ++ x.accepted name buf
  passed : traffic u.passed conn = traffic w.passed conn ++ x.given

theorem sending_keepUnsent (unsent : Bytes) (h : Sending conn buf w) :
    ∃ u, Client.keepUnsent unsent w = .ok ⟨⟩ u ∧ Sending conn unsent u ∧ u.wire = w.wire ∧
      u.passed = w.passed := by
  refine ⟨_, modify_eq _ w, ?_⟩
  rw [addWritableHandler_eq (w := { w with sendbuf := some unsent }) h.conn]
  exact ⟨⟨h.state, h.conn, rfl⟩, rfl, rfl⟩

theorem text_eq_timeout : name.text = lit "timeout" ↔ name = .timeout := by
  cases name <;> simp [BlockName.text] <;> decide

/-- What is done about the rest, or about a rest that is not kept. -/
theorem sending_answer (name : BlockName) (data : Bytes) (done : Eff World Unit)
    (h : Sending conn buf w)
    (hdone : ∃ u, done w = .ok ⟨⟩ u ∧ Sending conn [] u ∧ u.wire = w.wire ∧ u.passed = w.passed)
    (written : Written) :
    ∃ u, (match written.result name with
        | .error err bytessent =>
          if err = lit "timeout" then Client.keepUnsent (data.drop bytessent) else done
        | .sent => done : Eff World Unit) w = .ok ⟨⟩ u ∧
      Sending conn (written.kept data name) u ∧ u.wire = w.wire ∧ u.passed = w.passed := by
  cases written with
  | all => exact hdone
  | closed bytessent =>
    simp only [Written.result]
    rw [if_neg (by decide)]
    exact hdone
  | blocked bytessent =>
    simp only [Written.result, Written.kept]
    by_cases hname : name = .timeout
    · rw [if_pos (text_eq_timeout.mpr hname), if_pos hname]
      exact sending_keepUnsent _ h
    · rw [if_neg (mt text_eq_timeout.mp hname), if_neg hname]
      exact hdone

theorem stepped_send (name : BlockName) (written : Written) (h : Sending conn buf w) :
    Stepped conn ⟨.send str, written, own⟩ name buf w
      ((Write.mk (.send str) written own).apply env name w) := by
  set result := written.result name with hresult
  set env' : Env := { env with send := fun _ _ => result } with henv
  have hpassed : Sending conn buf (w.pass str) := by
    rw [pass_eq h.conn]
    exact ⟨h.state, h.conn, h.sendbuf⟩
  have hgiven : traffic (w.pass str).passed conn = traffic w.passed conn ++ str := by
    rw [pass_eq h.conn]
    exact traffic_snoc _ _
  have hwire : (w.pass str).wire = w.wire := by rw [pass_eq h.conn]
  obtain ⟨u, hu, hstepped⟩ : ∃ u, Client.send env' str w = .ok ⟨⟩ u ∧
      Stepped conn ⟨.send str, written, own⟩ name buf w u := by
    rw [Client.send, bind_of_ok (modify_eq _ w), get_bind_eq, hpassed.sendbuf]
    cases buf with
    | cons b buf =>
      obtain ⟨u, hu, hsending, huwire, hupassed⟩ :=
        sending_keepUnsent (b :: buf ++ str) hpassed
      refine ⟨u, hu, hsending, ?_, ?_⟩
      · rw [huwire, hwire]
        exact (List.append_nil _).symm
      · rw [hupassed, hgiven]
        rfl
    | nil =>
      have hsent : Client.connSend env' str (w.pass str) = _ := connSend_eq hpassed.conn
      dsimp only
      rw [bind_of_ok hsent]
      have hsending : Sending conn [] { w.pass str with
          wire := (w.pass str).wire ++ [(conn, result.accepted str)] } :=
        ⟨hpassed.state, hpassed.conn, hpassed.sendbuf⟩
      obtain ⟨u, hu, hkept, huwire, hupassed⟩ := sending_answer name str (pure ⟨⟩)
        hsending ⟨_, rfl, hsending, rfl, rfl⟩ written
      refine ⟨u, ?_, hkept, ?_, ?_⟩
      · refine Eq.trans ?_ hu
        cases hend : written.result name <;> simp only [henv, hresult, hend]
      · rw [huwire, traffic_snoc, hwire]
        rfl
      · rw [hupassed]
        exact hgiven
  have happly : (Write.mk (.send str) written own).apply env name w =
      ((Client.send env' str).pcall w).2 := rfl
  rw [happly, pcall, hu]
  exact hstepped

theorem stepped_writable (name : BlockName) (written : Written) (h : Sending conn buf w) :
    Stepped conn ⟨.writable, written, own⟩ name buf w
      ((Write.mk .writable written own).apply env name w) := by
  set result := written.result name with hresult
  set env' : Env := { env with send := fun _ _ => result } with henv
  obtain ⟨u, hu, hstepped⟩ : ∃ u, Client.flush env' w = .ok ⟨⟩ u ∧
      Stepped conn ⟨.writable, written, own⟩ name buf w u := by
    rw [Client.flush, get_bind_eq, h.sendbuf]
    cases buf with
    | nil =>
      exact ⟨w, rfl, h, (List.append_nil _).symm, (List.append_nil _).symm⟩
    | cons b buf =>
      have hsent : Client.connSend env' (b :: buf) w = _ := connSend_eq h.conn
      dsimp only
      rw [bind_of_ok hsent]
      have hsending : Sending conn (b :: buf) { w with
          wire := w.wire ++ [(conn, result.accepted (b :: buf))] } := ⟨h.state, h.conn, h.sendbuf⟩
      obtain ⟨u, hu, hkept, huwire, hupassed⟩ := sending_answer name (b :: buf)
        (modify fun w => { w with sendbuf := some [] }) hsending
        ⟨_, modify_eq _ _, ⟨h.state, h.conn, rfl⟩, rfl, rfl⟩ written
      refine ⟨u, ?_, hkept, ?_, ?_⟩
      · refine Eq.trans ?_ hu
        cases hend : written.result name <;> simp only [henv, hresult, hend]
      · rw [huwire, traffic_snoc]
        rfl
      · rw [hupassed]
        exact (List.append_nil _).symm
  have happly : (Write.mk .writable written own).apply env name w =
      ((Client.onWritable env').pcall w).2 := rfl
  have hready : Client.onReady env' (Client.flush env') w = .ok ⟨⟩ u := by
    rw [onReady_eq ?_ ?_, hu]
    · rcases h.state with hs | hs <;> simp [hs]
    · rcases h.state with hs | hs <;> simp [hs]
  have hwritable : Client.onWritable env' w = .ok false u := by
    rw [Client.onWritable, bind_of_ok hready]
    rfl
  rw [happly, pcall, hwritable]
  exact hstepped

theorem stepped_apply (env : Env) (x : Write) (name : BlockName) (h : Sending conn buf w) :
    Stepped conn x name buf w (x.apply env name w) := by
  obtain ⟨op, written, own⟩ := x
  cases op with
  | send str => exact stepped_send name written h
  | writable => exact stepped_writable name written h

/-! ### Two connections -/

/-- Both have the same in `_sendbuf`. -/
structure Paired (conn : Nat) (t : Twins) : Prop where
  plain : ∃ buf, Sending conn buf t.plain ∧ Sending conn buf t.ssl
  whole : t.closed = false → ∃ buf ∈ t.ssl.sendbuf, Whole conn buf t.ssl

/-- What is written and what is kept is all there was, unless a rest is given up. -/
theorem accepted_append_kept {data : Bytes} {written : Written}
    (hopen : ∀ bytessent, written ≠ .closed bytessent)
    (hleft : ∀ bytessent, written = .blocked bytessent → name ≠ .timeout →
      data.length ≤ bytessent) :
    (written.result name).accepted data ++ written.kept data name = data := by
  cases written with
  | all => exact List.append_nil data
  | closed bytessent => exact absurd rfl (hopen bytessent)
  | blocked bytessent =>
    simp only [Written.result, SendResult.accepted, Written.kept]
    by_cases hname : name = .timeout
    · rw [if_pos hname]
      exact List.take_append_drop bytessent data
    · rw [if_neg hname, List.append_nil]
      exact List.take_of_length_le (hleft bytessent rfl hname)

/-- What a step buffers differs exactly when SSL gives up a rest. -/
theorem kept_eq_iff {data : Bytes} (written : Written) :
    written.kept data name = written.kept data .timeout ↔
      ∀ bytessent, written = .blocked bytessent → name ≠ .timeout → data.length ≤ bytessent := by
  cases written with
  | all => simp [Written.kept]
  | closed bytessent => simp [Written.kept]
  | blocked bytessent =>
    simp only [Written.kept, Written.blocked.injEq, if_true]
    by_cases hname : name = .timeout
    · simp [hname]
    · simp only [if_neg hname]
      rw [eq_comm, List.drop_eq_nil_iff]
      simp [hname]

/-- What is given to the socket is what was buffered and what is given to `_send`. -/
theorem asked_eq {data : Bytes} (h : x.op.asked buf = some data) : data = buf ++ x.given := by
  obtain ⟨op, written, own⟩ := x
  cases op with
  | send str =>
    simp only [WriteOp.asked, Option.ite_none_right_eq_some, Option.some.injEq] at h
    obtain ⟨rfl, rfl⟩ := h
    rfl
  | writable =>
    simp only [WriteOp.asked, Option.ite_none_left_eq_some, Option.some.injEq] at h
    obtain ⟨-, rfl⟩ := h
    exact (List.append_nil _).symm

/-- What is not given to the socket is kept. -/
theorem buffered_of_unasked (h : x.op.asked buf = none) : x.buffered name buf = buf ++ x.given := by
  obtain ⟨op, written, own⟩ := x
  rw [Write.buffered, h]
  cases op with
  | send str => rfl
  | writable => exact (List.append_nil _).symm

theorem whole_stepped (hw : Whole conn buf w) (h : Stepped conn x name buf w u)
    (hall : x.accepted name buf ++ x.buffered name buf = buf ++ x.given) :
    Whole conn (x.buffered name buf) u := by
  rw [Whole, h.wire, h.passed, List.append_assoc, hall, ← List.append_assoc, hw]

theorem alike_step_iff (h : Paired conn s) (hstep : s.step env x = some t) :
    s.NothingLeft x ↔ t.Alike conn := by
  obtain ⟨⟨buf, hplain, hssl⟩, hwhole⟩ := h
  obtain rfl := Option.some.inj hstep
  have hone := stepped_apply env x .timeout hplain
  have htwo := stepped_apply env x x.name hssl
  have hbuffers : (x.apply env x.name s.ssl).sendbuf = (x.apply env .timeout s.plain).sendbuf ↔
      x.buffered x.name buf = x.buffered .timeout buf := by
    rw [htwo.sending.sendbuf, hone.sending.sendbuf, Option.some_inj]
  have hstill : ∀ {c : Bool}, c = false → (c = false → s.closed = false) →
      x.accepted x.name buf ++ x.buffered x.name buf = buf ++ x.given →
        ∃ b ∈ (x.apply env x.name s.ssl).sendbuf, Whole conn b (x.apply env x.name s.ssl) := by
    intro c hc hopen hall
    obtain ⟨b, hb, hw⟩ := hwhole (hopen hc)
    obtain rfl := Option.some.inj (hssl.sendbuf.symm.trans hb)
    exact ⟨_, htwo.sending.sendbuf, whole_stepped hw htwo hall⟩
  simp only [Twins.Alike, Twins.NothingLeft, hbuffers, hplain.sendbuf, Option.bind_some]
  cases hasked : x.op.asked buf with
  | none =>
    simp only [reduceCtorEq, false_implies, implies_true, true_iff, Bool.or_false]
    refine ⟨(buffered_of_unasked hasked).trans (buffered_of_unasked hasked).symm, fun hopen => ?_⟩
    refine hstill hopen id ?_
    rw [Write.accepted, hasked, buffered_of_unasked hasked]
    rfl
  | some data =>
    have hkept : ∀ name, x.buffered name buf = x.written.kept data name := fun name => by
      rw [Write.buffered, hasked]
    rw [hkept, hkept, kept_eq_iff]
    simp only [Option.some.injEq, forall_eq']
    refine ⟨fun hleft => ⟨hleft, fun hopen => ?_⟩, fun h => h.1⟩
    obtain ⟨hclosed, hwritten⟩ := Bool.or_eq_false_iff.mp hopen
    refine hstill hopen (fun _ => hclosed) ?_
    rw [Write.accepted, hasked, hkept, ← asked_eq hasked]
    refine accepted_append_kept (fun bytessent hc => ?_) hleft
    simp [hc] at hwritten

theorem paired_step (h : Paired conn s) (hstep : s.step env x = some t) (halike : t.Alike conn) :
    Paired conn t := by
  obtain ⟨buf, hplain, hssl⟩ := h.plain
  obtain rfl := Option.some.inj hstep
  have hone := stepped_apply env x .timeout hplain
  have htwo := stepped_apply env x x.name hssl
  have hsame : x.buffered x.name buf = x.buffered .timeout buf := by
    have heq := halike.1
    simp only at heq
    rwa [htwo.sending.sendbuf, hone.sending.sendbuf, Option.some_inj] at heq
  exact ⟨⟨_, hone.sending, hsame ▸ htwo.sending⟩, halike.2⟩

/-- For every trace from a state in which nothing is lost: SSL has the same as a plain socket in
`_sendbuf` after every step, and drops nothing while the socket does not report `closed`, exactly when
no write that SSL says would block leaves anything unsent. -/
theorem ssl_alike_iff (hsending : Sending conn buf w) (hwhole : Whole conn buf w)
    (trace : List Write) :
    Along (Twins.step env) (fun s x => ∀ t, s.step env x = some t → t.Alike conn) (.start w) trace ↔
      Along (Twins.step env) Twins.NothingLeft (.start w) trace := by
  refine (along_iff (I := Paired conn) (fun s x t h hstep => alike_step_iff h hstep)
    (fun s x t h hstep => paired_step h hstep) (fun s x _ hstep => by cases hstep) ?_).symm
  exact ⟨⟨buf, hsending, hsending⟩, fun _ => ⟨buf, hsending.sendbuf, hwhole⟩⟩

/-- A Client that has just begun to register over SSL. -/
def begun : World := { World.new "tux" 0 with
  session := ⟨.registering, "tux", .rfc1459, .default⟩
  conn := some 0
  sockets := 1
  sendbuf := some [] }

theorem sending_begun : Sending 0 [] begun := ⟨Or.inr rfl, rfl, rfl⟩

/-- The socket takes a line in two parts, and SSL says that it would block once all is sent. -/
theorem ssl_alike_sent :
    Along (Twins.step .silent) (fun s x => ∀ t, s.step .silent x = some t → t.Alike 0) (.start begun)
      [⟨.send "PING :a\r\n", .all, .timeout⟩, ⟨.send "PING :b\r\n", .blocked 9, .wantwrite⟩] := by
  refine (ssl_alike_iff sending_begun rfl _).mpr ?_
  refine ⟨fun data _ n hblocked => ?_, fun t ht => ⟨fun data hasked n hblocked _ => ?_,
    fun _ _ => trivial⟩⟩
  · cases hblocked
  · obtain rfl := Option.some.inj ht
    obtain rfl := Written.blocked.inj hblocked
    obtain rfl := Option.some.inj hasked
    decide

/-- The socket would block in the middle of a line. What is left of it is dropped. -/
theorem ssl_wantwrite_drops :
    let x : Write := ⟨.send "PING :a\r\n", .blocked 4, .wantwrite⟩
    (x.apply .silent .timeout begun).sendbuf = some " :a\r\n" ∧
      (x.apply .silent .wantwrite begun).sendbuf = some [] ∧
      ¬ Along (Twins.step .silent) (fun s x => ∀ t, s.step .silent x = some t → t.Alike 0)
        (.start begun) [x] := by
  intro x
  refine ⟨by decide +kernel, by decide +kernel, fun halong => ?_⟩
  have halike := (halong.1 _ rfl).1
  revert halike
  decide +kernel

end TuxBot.Irc
