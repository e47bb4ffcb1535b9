import AgentLab.Lib.History
import AgentLab.Pull.Placed

/-!
# Resumed downloads

What `_download` leaves in a partial file, for a server that sends a given content: the bytes from
the offset on with status 206, or those from the start with another status, in any chunks, stopping
and failing anywhere. The partial file is then a beginning of the content at any time
(`download_keeps`), apart from one that is too long to begin with, which goes first. Whatever the
server does, a download that returns leaves as many bytes as there should be (`download_returns`),
and asks no more than `RETRIES` times (`download_atMost`). `download_resumes` puts these together.
-/

namespace AgentLab.Pull

open Python Effects

variable {options : Options} {url : Str} {f : ModelFile} {content : Bytes} {d d' : Disk}
  {o : Op} {x : Choice} {name : Str} {offset left : ℕ} {allowed : Disk → Op → Choice → Prop}

/-- A server that sends this content, and may stop or fail at any point. -/
def Honest (content : Bytes) (_ : Disk) (o : Op) (x : Choice) : Prop :=
  match o with
  | .fetch _ offset =>
    x.reply.status = 206 ∧ x.reply.chunks.flatten <+: content.drop offset ∨
      x.reply.status ≠ 206 ∧ x.reply.chunks.flatten <+: content
  | _ => True

instance : Decidable (Honest content d o x) := by
  cases o with
  | fetch _ offset => exact inferInstanceAs (Decidable (_ ∨ _))
  | _ => exact .isTrue trivial

/-- The partial file is a beginning of the content. -/
def Begins (content : Bytes) (f : ModelFile) (d : Disk) : Prop :=
  d.partialBytes f.partialName <+: content

/-- The partial file has that many bytes. -/
def HasSize (f : ModelFile) (size : ℕ) (d : Disk) : Prop :=
  ∃ file, Dict.get? d.partials f.partialName = some file ∧ file.bytes.length = size

/-- What a program does, it does in a world that keeps its history. -/
theorem does_logged {α : Type} {Q : α → Disk → Prop} {p : Script α} (h : Does allowed Q p d)
    (log : List (Event Op Choice Disk)) :
    wp (logged exec) (fun s => allowed s.1) (fun _ => True) (fun a s => Q a s.1)
      (fun _ _ => True) p (d, log) :=
  wp_mono (fun _ _ => trivial) (fun _ _ h => h.2) (fun _ _ _ => trivial)
    (wp_logged h (Since.refl d))

/-! ## The partial file -/

theorem partialBytes_setPartial (d : Disk) (name : Str) (file : File) :
    (d.setPartial name file).partialBytes name = file.bytes := by
  unfold Disk.partialBytes Disk.setPartial
  rw [Dict.get?_set_self]
  rfl

theorem partialBytes_append (d : Disk) (name : Str) (chunk : Bytes) (mtime : ℕ) :
    (d.append name chunk mtime).partialBytes name = d.partialBytes name ++ chunk :=
  partialBytes_setPartial _ _ _

theorem partialBytes_dropPartial (d : Disk) (name : Str) :
    (d.dropPartial name).partialBytes name = [] := by
  unfold Disk.partialBytes Disk.dropPartial
  rw [Dict.get?_pop, if_pos rfl]
  rfl

theorem partialBytes_of_get? {file : File} (h : Dict.get? d.partials name = some file) :
    d.partialBytes name = file.bytes := by
  unfold Disk.partialBytes
  rw [h]
  rfl

theorem exec_partialSize {size : Option ℕ} (h : exec (.partialSize name) x d = (.ok size, d')) :
    d' = d ∧ size.getD 0 = (d.partialBytes name).length := by
  cases (exec_ok h).2
  refine ⟨rfl, ?_⟩
  unfold Disk.partialBytes
  cases Dict.get? d.partials name <;> rfl

theorem exec_statPartial {size : ℕ} (h : exec (.statPartial name) x d = (.ok size, d')) :
    d' = d ∧ ∃ file, Dict.get? d.partials name = some file ∧ file.bytes.length = size := by
  have h := (exec_ok h).2
  simp only [perform] at h
  split at h <;> cases h
  exact ⟨rfl, _, ‹_›, rfl⟩

theorem exec_writePartial (name : Str) (chunk : Bytes) (x : Choice) (d : Disk) :
    ∃ n, (exec (.writePartial name chunk) x d).2.partialBytes name =
      d.partialBytes name ++ chunk.take n := by
  unfold exec
  split
  · refine ⟨chunk.length, ?_⟩
    rw [List.take_length]
    exact partialBytes_append _ _ _ _
  · exact ⟨x.written, partialBytes_append _ _ _ _⟩

theorem exec_writePartial_ok {chunk : Bytes} {size : ℕ}
    (h : exec (.writePartial name chunk) x d = (.ok size, d')) :
    d'.partialBytes name = d.partialBytes name ++ chunk := by
  cases (exec_ok h).2
  exact partialBytes_append _ _ _ _

theorem openPartial_bytes (name : Str) (append : Bool) (x : Choice) (d : Disk) :
    (perform (.openPartial name append) x d).2.partialBytes name =
      if append then d.partialBytes name else [] := by
  show (d.setPartial name _).partialBytes name = _
  rw [partialBytes_setPartial]
  cases append with
  | false => rfl
  | true =>
    unfold Disk.partialBytes
    cases Dict.get? d.partials name <;> rfl

theorem exec_openPartial {append : Bool} {u : Unit}
    (h : exec (.openPartial name append) x d = (.ok u, d')) :
    d'.partialBytes name = if append then d.partialBytes name else [] := by
  have hbytes := openPartial_bytes name append x d
  rwa [(exec_ok h).2] at hbytes

/-- An operation on the partial file, other than a `write`, keeps its bytes or drops them all. -/
theorem exec_kept {o : Op} (ho : OnPartial name o) (hwrite : ∀ n chunk, o ≠ .writePartial n chunk)
    (x : Choice) (d : Disk) : (exec o x d).2.partialBytes name = d.partialBytes name ∨
      (exec o x d).2.partialBytes name = [] := by
  have hperform : (perform o x d).2.partialBytes name = d.partialBytes name ∨
      (perform o x d).2.partialBytes name = [] := by
    cases o with
    | removePartial n =>
      cases ho
      simp only [perform]
      split
      · exact .inr (partialBytes_dropPartial d name)
      · exact .inl rfl
    | touchPartial n =>
      cases ho
      refine .inl ?_
      show (d.append name [] x.mtime).partialBytes name = _
      rw [partialBytes_append, List.append_nil]
    | openPartial n append =>
      cases ho
      rw [openPartial_bytes]
      split_ifs
      · exact .inl rfl
      · exact .inr rfl
    | writePartial n chunk => exact absurd rfl (hwrite n chunk)
    | statPartial n =>
      simp only [perform]
      split <;> exact .inl rfl
    | partialSize n | fetch url offset => exact .inl rfl
    | _ => cases ho
  unfold exec
  split
  · exact hperform
  · cases o with
    | writePartial n chunk => exact absurd rfl (hwrite n chunk)
    | _ => exact .inl rfl

/-! ## Downloads keep to the content -/

/-- A program that keeps to a beginning of the content. -/
abbrev KeepsTo (content : Bytes) (f : ModelFile) {α : Type} (Q : α → Disk → Prop) (p : Script α)
    (d : Disk) : Prop :=
  wp exec (Honest content) (Begins content f) (fun a d => Begins content f d ∧ Q a d)
    (fun _ => Begins content f) p d

theorem writeChunks_keeps {breaks : Option Exc} : ∀ {chunks : List Bytes} {d : Disk},
    d.partialBytes f.partialName ++ chunks.flatten <+: content →
      KeepsTo content f (fun _ _ => True) (writeChunks f breaks chunks) d := by
  intro chunks
  induction chunks with
  | nil =>
    intro d h
    rw [List.flatten_nil, List.append_nil] at h
    cases breaks with
    | none => exact ⟨h, trivial⟩
    | some e => exact h
  | cons chunk chunks ih =>
    intro d h
    rw [List.flatten_cons, ← List.append_assoc] at h
    have hwritten : ∀ x, Begins content f (exec (.writePartial f.partialName chunk) x d).2 := by
      intro x
      obtain ⟨n, hn⟩ := exec_writePartial f.partialName chunk x d
      unfold Begins
      rw [hn]
      refine List.IsPrefix.trans ?_ ((List.prefix_append _ _).trans h)
      exact (List.prefix_append_right_inj _).2 (List.take_prefix n chunk)
    refine wp_op_bind (fun x _ => hwritten x) (fun x size d' _ hx => ?_) fun x e d' _ hx => ?_
    · have hd' := exec_writePartial_ok hx
      split_ifs
      · refine ⟨?_, trivial⟩
        have := hwritten x
        rwa [hx] at this
      · exact ih (hd' ▸ h)
    · have := hwritten x
      rwa [hx] at this

/-- What is written next continues the content. -/
theorem continues {append : Bool} {chunks : Bytes} {status : ℕ} (h : Begins content f d)
    (hoffset : (d.partialBytes f.partialName).length = offset)
    (happend : append = decide (offset ≠ 0 ∧ status = 206))
    (hreply : status = 206 ∧ chunks <+: content.drop offset ∨ status ≠ 206 ∧ chunks <+: content) :
    (if append then d.partialBytes f.partialName else []) ++ chunks <+: content := by
  obtain ⟨rest, hrest⟩ := h
  cases append with
  | true =>
    obtain ⟨-, hstatus⟩ := of_decide_eq_true happend.symm
    rcases hreply with ⟨-, hchunks⟩ | ⟨hne, -⟩
    · rw [← hrest, ← hoffset, List.drop_left] at hchunks
      rw [if_pos rfl, ← hrest, List.prefix_append_right_inj]
      exact hchunks
    · exact absurd hstatus hne
  | false =>
    have hnot := of_decide_eq_false happend.symm
    rw [if_neg Bool.false_ne_true, List.nil_append]
    rcases hreply with ⟨hstatus, hchunks⟩ | ⟨-, hchunks⟩
    · obtain rfl : offset = 0 := by
        by_contra hne
        exact hnot ⟨hne, hstatus⟩
      exact hchunks
    · exact hchunks

theorem begins_exec {o : Op} (h : Begins content f d) (ho : OnPartial f.partialName o)
    (hwrite : ∀ n chunk, o ≠ .writePartial n chunk) (x : Choice) :
    Begins content f (exec o x d).2 := by
  unfold Begins
  rcases exec_kept ho hwrite x d with hbytes | hbytes
  · rw [hbytes]
    exact h
  · rw [hbytes]
    exact List.nil_prefix

/-- An operation on the partial file other than a `write`, and then the rest. -/
theorem keepsTo_call {α : Type} {Q : α → Disk → Prop} {o : Op} {k : o.Resp → Script α}
    (h : Begins content f d) (ho : OnPartial f.partialName o)
    (hwrite : ∀ n chunk, o ≠ .writePartial n chunk)
    (hk : ∀ x r d', Honest content d o x → exec o x d = (.ok r, d') → Begins content f d' →
      KeepsTo content f Q (k r) d') : KeepsTo content f Q (call o >>= k) d := by
  have hkept := begins_exec h ho hwrite
  refine wp_op_bind (fun x _ => hkept x) (fun x r d' hx hr => ?_) fun x e d' _ hr => ?_
  · have hd' := hkept x
    rw [hr] at hd'
    exact hk x r d' hx hr hd'
  · have hd' := hkept x
    rwa [hr] at hd'

theorem request_keeps (h : Begins content f d)
    (hoffset : (d.partialBytes f.partialName).length = offset) :
    KeepsTo content f (fun _ _ => True) (request url f offset) d := by
  refine keepsTo_call h trivial nofun fun x reply d₁ hhonest hx h₁ => ?_
  obtain rfl : d₁ = d := by
    simpa only [hx] using exec_reads (o := .fetch url offset) trivial x d
  obtain rfl : reply = x.reply := by
    cases (exec_ok hx).2
    rfl
  refine keepsTo_call h₁ rfl nofun fun x' u d₂ _ hx' h₂ => ?_
  have hcontinues := continues h hoffset rfl hhonest
  rw [← exec_openPartial hx'] at hcontinues
  refine wp_seq (writeChunks_keeps hcontinues) fun _ d₃ ⟨h₃, _⟩ => ?_
  cases x.reply.closes with
  | none => exact ⟨h₃, trivial⟩
  | some e => exact h₃

theorem attempt_keeps (h : Begins content f d)
    (hoffset : (d.partialBytes f.partialName).length = offset) :
    KeepsTo content f (fun _ _ => True) (attempt options url f offset) d := by
  refine wp_handle (wp_mono (fun _ h => h) (fun _ _ h => h) (fun e d' h' => ?_)
    (wp_seq (request_keeps h hoffset) fun _ d' h' => h'))
  cases transient? options e with
  | some text => exact ⟨h', trivial⟩
  | none => exact h'

/-- An attempt, from where it starts, and those after it. -/
def round (options : Options) (url : Str) (f : ModelFile) (left offset : ℕ) : Script Unit :=
  if offset = f.size then call (.touchPartial f.partialName)
  else do
    let failure ← attempt options url f offset
    match failure with
    | some text =>
      if left = 0 then .raise (.pull (.failed f.name text)) else download options url f left
    | none => do
      let size ← call (.statPartial f.partialName)
      if size = f.size then pure ()
      else if f.size < size then do
        call (.removePartial f.partialName)
        .raise (.pull (.tooLong f.name f.size))
      else if left = 0 then .raise (.pull (.stopped f.name size f.size))
      else download options url f left

theorem download_succ (left : ℕ) : download options url f (left + 1) =
    startOffset f >>= round options url f left := rfl

theorem startOffset_keeps (hlength : content.length = f.size) (h : Begins content f d) :
    KeepsTo content f (fun offset d' => (d'.partialBytes f.partialName).length = offset)
      (startOffset f) d := by
  refine keepsTo_call h trivial nofun fun x size d₁ _ hx h₁ => ?_
  obtain ⟨rfl, hsize⟩ := exec_partialSize hx
  have hle := h₁.length_le.trans hlength.le
  rw [if_neg (by omega)]
  exact ⟨h₁, hsize.symm⟩

theorem round_keeps
    (hleft : ∀ {d : Disk}, Begins content f d →
      KeepsTo content f (fun _ _ => True) (download options url f left) d)
    (h : Begins content f d) (hoffset : (d.partialBytes f.partialName).length = offset) :
    KeepsTo content f (fun _ _ => True) (round options url f left offset) d := by
  unfold round
  by_cases hsize : offset = f.size
  · rw [if_pos hsize]
    have hkept := begins_exec (o := .touchPartial f.partialName) h rfl nofun
    refine wp_op (fun x _ => hkept x) (fun x u d' _ hx => ⟨?_, trivial⟩) fun x e d' _ hx => ?_
    · have hd' := hkept x
      rwa [hx] at hd'
    · have hd' := hkept x
      rwa [hx] at hd'
  · rw [if_neg hsize]
    refine wp_seq (attempt_keeps h hoffset) fun failure d₁ ⟨h₁, _⟩ => ?_
    cases failure with
    | some text =>
      show KeepsTo content f _ (if left = 0 then _ else _) d₁
      split_ifs
      · exact h₁
      · exact hleft h₁
    | none =>
      refine keepsTo_call h₁ trivial nofun fun x size d₂ _ _ h₂ => ?_
      split_ifs
      · exact ⟨h₂, trivial⟩
      · exact keepsTo_call h₂ rfl nofun fun _ _ _ _ _ h' => h'
      · exact h₂
      · exact hleft h₂

/-- **A download keeps to a beginning of the content.** -/
theorem download_keeps (hlength : content.length = f.size) : ∀ (left : ℕ) {d : Disk},
    Begins content f d → KeepsTo content f (fun _ _ => True) (download options url f left) d
  | 0, _, h => ⟨h, trivial⟩
  | left + 1, _, h => by
    rw [download_succ]
    exact wp_seq (startOffset_keeps hlength h) fun _ _ h' =>
      round_keeps (fun h'' => download_keeps hlength left h'') h'.1 h'.2

/-! ## What a download returns with -/

theorem startOffset_does : Does allowed (fun offset d' =>
    (d'.partialBytes f.partialName).length = offset) (startOffset f) d := by
  refine does_call fun x size d₁ hx => ?_
  obtain ⟨rfl, hsize⟩ := exec_partialSize hx
  split_ifs
  · refine does_call fun x u d₂ hx => ?_
    obtain rfl := exec_removePartial hx
    show ((d₁.dropPartial f.partialName).partialBytes f.partialName).length = 0
    rw [partialBytes_dropPartial]
    rfl
  · exact hsize.symm

theorem round_returns
    (hleft : ∀ d, left ≠ 0 →
      Does allowed (fun _ => HasSize f f.size) (download options url f left) d)
    (hoffset : (d.partialBytes f.partialName).length = offset) :
    Does allowed (fun _ => HasSize f f.size) (round options url f left offset) d := by
  unfold round
  by_cases hsize : offset = f.size
  · rw [if_pos hsize]
    refine does_op fun x u d' hx => ?_
    cases (exec_ok hx).2
    refine ⟨_, Dict.get?_set_self _ _ _, ?_⟩
    rw [List.append_nil, hoffset, hsize]
  · rw [if_neg hsize]
    have hattempt := attempt_uses options url f offset
    refine wp_seq (besides_does (uses_mono (fun _ ho => .inr ⟨_, ho⟩) hattempt) d)
      fun failure d₁ _ => ?_
    cases failure with
    | some text =>
      show Does allowed _ (if left = 0 then _ else _) d₁
      split_ifs with hzero
      · trivial
      · exact hleft d₁ hzero
    | none =>
      refine does_call fun x size d₂ hx => ?_
      obtain ⟨rfl, file, hfile, hlength⟩ := exec_statPartial hx
      split_ifs with hsame hlong hzero
      · exact ⟨file, hfile, hlength.trans hsame⟩
      · exact does_call fun _ _ _ _ => trivial
      · trivial
      · exact hleft _ hzero

/-- **A download that returns** leaves a partial file of the size of the file. -/
theorem download_returns : ∀ (left : ℕ) (d : Disk), left ≠ 0 →
    Does allowed (fun _ => HasSize f f.size) (download options url f left) d
  | 0, _, h => absurd rfl h
  | left + 1, d, _ => by
    rw [download_succ]
    exact wp_seq startOffset_does fun _ _ hoffset =>
      round_returns (fun d hzero => download_returns left d hzero) hoffset

/-! ## How often it asks -/

def Op.isFetch : Op → Bool
  | .fetch _ _ => true
  | _ => false

theorem startOffset_atMost : AtMost (fun o => o.isFetch = true) (startOffset f) 0 := by
  refine atMost_uses (uses_bind (uses_op nofun) fun size => ?_)
  split_ifs
  · exact uses_bind (uses_op nofun) fun _ => trivial
  · trivial

/-- What follows the request. -/
theorem reply_atMost (reply : Reply) : AtMost (fun o => o.isFetch = true) (do
    call (.openPartial f.partialName (offset ≠ 0 ∧ reply.status = 206))
    writeChunks f reply.breaks reply.chunks
    match reply.closes with
    | some e => .raise e
    | none => pure ()) 0 := by
  refine atMost_uses (uses_bind (uses_op Bool.false_ne_true) fun _ => uses_bind ?_ fun _ => ?_)
  · refine uses_mono ?_ (writeChunks_writes f _ _)
    rintro _ ⟨_, rfl⟩
    exact Bool.false_ne_true
  · cases reply.closes <;> trivial

theorem attempt_atMost :
    AtMost (fun o => o.isFetch = true) (attempt options url f offset) 1 := by
  have hrequest : AtMost (fun o => o.isFetch = true) (request url f offset) 1 :=
    atMost_bind (m := 0) (atMost_op _) reply_atMost
  refine atMost_handle (n := 1) (m := 0) (atMost_bind (m := 0) hrequest fun _ => trivial) fun e =>
    ?_
  cases transient? options e <;> trivial

/-- **A download asks no more than it has attempts.** -/
theorem download_atMost : ∀ left : ℕ,
    AtMost (fun o => o.isFetch = true) (download options url f left) left
  | 0 => trivial
  | left + 1 => by
    have hround (offset : ℕ) :
        AtMost (fun o => o.isFetch = true) (round options url f left offset) (1 + left) := by
      unfold round
      by_cases hsize : offset = f.size
      · rw [if_pos hsize]
        exact atMost_mono (by omega) (atMost_op _)
      · rw [if_neg hsize]
        refine atMost_bind attempt_atMost fun failure => ?_
        cases failure with
        | some text =>
          show AtMost _ (if left = 0 then _ else _) left
          split_ifs
          · trivial
          · exact download_atMost left
        | none =>
          refine atMost_mono (Nat.zero_add left).le (atMost_bind ?_ fun size => ?_)
          · exact atMost_uses (uses_op Bool.false_ne_true)
          · split_ifs
            · trivial
            · exact atMost_mono (Nat.zero_le left)
                (atMost_uses (uses_bind (uses_op Bool.false_ne_true) fun _ => trivial))
            · trivial
            · exact download_atMost left
    rw [download_succ]
    exact atMost_mono (by omega) (atMost_bind startOffset_atMost hround)

/-! ## Any beginning -/

/-- The partial file is too long, and still as it was at the start. -/
def StaysLong (f : ModelFile) (d : Disk) (e : Event Op Choice Disk) : Prop :=
  f.size < (d.partialBytes f.partialName).length ∧
    e.after.partialBytes f.partialName = d.partialBytes f.partialName

/-- A partial file that is too long stays as it is until it goes; from then on, and otherwise from
the start, there is a beginning of the content. -/
def Resumes (content : Bytes) (f : ModelFile) (d : Disk)
    (history : List (Event Op Choice Disk)) : Prop :=
  ∃ before after, history = before ++ after ∧ (∀ e ∈ before, StaysLong f d e) ∧
    ∀ e ∈ after, Begins content f e.after

/-- A program that resumes. -/
abbrev ResumesWith (content : Bytes) (f : ModelFile) (d : Disk) {α : Type} (p : Script α)
    (s : Disk × List (Event Op Choice Disk)) : Prop :=
  wp (logged exec) (fun s => Honest content s.1) (fun s => Resumes content f d s.2)
    (fun _ s => Resumes content f d s.2 ∧ Begins content f s.1)
    (fun _ s => Resumes content f d s.2) p s

theorem resumes_of_stays {history : List (Event Op Choice Disk)}
    (h : ∀ e ∈ history, StaysLong f d e) : Resumes content f d history :=
  ⟨history, [], (List.append_nil _).symm, h, fun _ he => absurd he List.not_mem_nil⟩

theorem resumesWith_of_keeps {α : Type} {p : Script α}
    {before history : List (Event Op Choice Disk)} (hbefore : ∀ e ∈ before, StaysLong f d e)
    (hsince : Since (Begins content f) before (d', history))
    (hp : KeepsTo content f (fun _ _ => True) p d') : ResumesWith content f d p (d', history) := by
  have hresumes : ∀ s : Disk × List (Event Op Choice Disk),
      Since (Begins content f) before s → Resumes content f d s.2 :=
    fun s ⟨after, hafter, hall⟩ => ⟨before, after, hafter, hbefore, hall⟩
  exact wp_mono hresumes (fun _ s h => ⟨hresumes s h.1, h.2.1⟩) (fun _ s h => hresumes s h.1)
    (wp_logged hp hsince)

/-- A partial file that is too long goes before the first request. -/
theorem startOffset_tooLong (hlong : f.size < (d.partialBytes f.partialName).length) :
    wp (logged exec) (fun s => Honest content s.1) (fun s => Resumes content f d s.2)
      (fun offset s => s.1.partialBytes f.partialName = [] ∧ offset = 0 ∧
        ∃ before, (∀ e ∈ before, StaysLong f d e) ∧ Since (Begins content f) before s)
      (fun _ s => Resumes content f d s.2) (startOffset f) (d, []) := by
  have hstays (o : Op) (x : Choice) : StaysLong f d ⟨o, x, d⟩ := ⟨hlong, rfl⟩
  have hreads (x : Choice) : (exec (.partialSize f.partialName) x d).2 = d :=
    exec_reads (o := .partialSize f.partialName) trivial x d
  refine wp_logged_bind (fun x _ => ?_) (fun x size d₁ _ hx => ?_) fun x e d₁ _ hx => ?_
  · rw [hreads]
    exact resumes_of_stays (List.forall_mem_singleton.2 (hstays _ x))
  · obtain ⟨rfl, hsize⟩ := exec_partialSize hx
    rw [if_pos (by omega)]
    have hbefore := List.forall_mem_singleton.2 (hstays (.partialSize f.partialName) x)
    have hremoved (x' : Choice) : Resumes content f d₁ ([⟨.partialSize f.partialName, x, d₁⟩] ++
        [⟨.removePartial f.partialName, x', (exec (.removePartial f.partialName) x' d₁).2⟩]) := by
      rcases exec_kept (o := .removePartial f.partialName) rfl nofun x' d₁ with hbytes | hbytes
      · refine resumes_of_stays (List.forall_mem_append.2 ⟨hbefore, ?_⟩)
        exact List.forall_mem_singleton.2 ⟨hlong, hbytes⟩
      · refine ⟨_, _, rfl, hbefore, List.forall_mem_singleton.2 ?_⟩
        unfold Begins
        rw [hbytes]
        exact List.nil_prefix
    refine wp_logged_bind (fun x' _ => hremoved x') (fun x' u d₂ _ hx' => ?_)
      fun x' e d₂ _ hx' => ?_
    · obtain rfl := exec_removePartial hx'
      have hnil := partialBytes_dropPartial d₁ f.partialName
      refine ⟨hnil, rfl, _, hbefore, (Since.refl d₁).concat _ x' ?_⟩
      unfold Begins
      rw [hnil]
      exact List.nil_prefix
    · have hhistory := hremoved x'
      rwa [hx'] at hhistory
  · obtain rfl : d₁ = d := by
      have hd := hreads x
      rwa [hx] at hd
    exact resumes_of_stays (List.forall_mem_singleton.2 (hstays _ x))

theorem download_tooLong (hlength : content.length = f.size)
    (hlong : f.size < (d.partialBytes f.partialName).length) (left : ℕ) :
    ResumesWith content f d (download options url f (left + 1)) (d, []) := by
  rw [download_succ]
  refine wp_seq (startOffset_tooLong hlong) fun offset ⟨d₁, history⟩ h => ?_
  obtain ⟨hnil, rfl, before, hbefore, hsince⟩ := h
  refine resumesWith_of_keeps hbefore hsince (round_keeps ?_ ?_ ?_)
  · exact fun h => download_keeps hlength left h
  · unfold Begins
    rw [hnil]
    exact List.nil_prefix
  · rw [hnil]
    rfl

/-- **Resuming is correct.** -/
theorem download_resumes (options : Options) (url : Str) (f : ModelFile) :
    (∀ content : Bytes, content.length = f.size → ∀ d : Disk,
      Begins content f d ∨ f.size < (d.partialBytes f.partialName).length →
      ∀ result d' history, Ends (logged exec) (fun s => Honest content s.1)
          (download options url f RETRIES) (d, []) result (d', history) →
        Resumes content f d history ∧ ∀ u, result = .ok u →
          d'.partialBytes f.partialName = content ∧ HasSize f f.size d') ∧
    ∀ (d : Disk) result d' history, Ends (logged exec) (fun _ _ _ => True)
        (download options url f RETRIES) (d, []) result (d', history) →
      (∀ u, result = .ok u → HasSize f f.size d') ∧
        countOf (fun o => o.isFetch = true) history ≤ RETRIES := by
  obtain ⟨left, hretries⟩ : ∃ left, RETRIES = left + 1 := ⟨2, rfl⟩
  rw [hretries]
  constructor
  · intro content hlength d hd result d' history hends
    have hresumes : ResumesWith content f d (download options url f (left + 1)) (d, []) := by
      rcases hd with hbegins | hlong
      · have hnone : ∀ e ∈ ([] : List (Event Op Choice Disk)), StaysLong f d e :=
          fun _ he => absurd he List.not_mem_nil
        exact resumesWith_of_keeps hnone (Since.refl d) (download_keeps hlength _ hbegins)
      · exact download_tooLong hlength hlong left
    have hreturns : Does (Honest content) (fun _ => HasSize f f.size)
        (download options url f (left + 1)) d := download_returns _ d (Nat.succ_ne_zero left)
    obtain ⟨hok, herror⟩ := wp_ends hresumes hends
    refine ⟨?_, fun u hu => ?_⟩
    · cases result with
      | ok u => exact (hok u rfl).1
      | error e => exact herror e rfl
    · obtain ⟨file, hfile, hsize⟩ := (wp_ends (does_logged hreturns []) hends).1 u hu
      have hbegins := (hok u hu).2
      refine ⟨?_, file, hfile, hsize⟩
      refine hbegins.eq_of_length ?_
      rw [partialBytes_of_get? hfile, hsize, hlength]
  · intro d result d' history hends
    have hreturns : Does (fun _ _ _ => True) (fun _ => HasSize f f.size)
        (download options url f (left + 1)) d := download_returns _ d (Nat.succ_ne_zero left)
    refine ⟨(wp_ends (does_logged hreturns []) hends).1, ?_⟩
    have hcount := wp_ends (wp_atMost (download_atMost (left + 1)) (d, [])) hends
    have hzero : countOf (fun o => o.isFetch = true) ([] : List (Event Op Choice Disk)) = 0 := rfl
    rw [hzero, Nat.zero_add] at hcount
    cases result with
    | ok u => exact hcount.1 u rfl
    | error e => exact hcount.2 e rfl

/-- A connection that breaks after two bytes, and a second one that goes on from there. -/
def twoConnections : List Choice :=
  List.replicate 4 { quiet with reply := ⟨200, [[0x47, 0x47]], some (.transport []), none⟩ } ++
    List.replicate 6 { quiet with reply := ⟨206, [[0x55], [0x46]], none, none⟩ }

theorem download_resumes_twoConnections : ∃ d' history,
    Ends (logged exec) (fun s => Honest smallBytes s.1)
      (download smallOptions [] smallFile RETRIES) (smallDisk [], []) (.ok ()) (d', history) ∧
    d'.partialBytes smallFile.partialName = smallBytes ∧
    countOf (fun o => o.isFetch = true) history = 2 := by
  have hrun : ∃ d' history, runWith (logged exec) (fun s => Honest smallBytes s.1) twoConnections
      (download smallOptions [] smallFile RETRIES) (smallDisk [], []) =
        some (.ok (), d', history) ∧ countOf (fun o => o.isFetch = true) history = 2 :=
    ⟨_, _, rfl, rfl⟩
  obtain ⟨d', history, hrun, hcount⟩ := hrun
  have hends := Ends.of_runWith hrun
  have hbegins : Begins smallBytes smallFile (smallDisk []) := List.nil_prefix
  have hresumes := (download_resumes smallOptions [] smallFile).1 smallBytes rfl (smallDisk [])
    (.inl hbegins) (.ok ()) d' history hends
  exact ⟨d', history, hends, (hresumes.2 () rfl).1, hcount⟩

end AgentLab.Pull
