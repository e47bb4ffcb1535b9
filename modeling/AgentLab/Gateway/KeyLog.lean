import AgentLab.Gateway.KeyFile
import AgentLab.Lib.Log

/-!
# The life of an API key

What the commands `create` and `revoke` and the checks of the gateway should look like from outside:
a log of the calls that began, of what each did to the keys in one moment, of what each returned,
and of what the gateway was asked and answered. `replay` is the content of the keys file that a log
says.

`Allowed` says what may come next: a call does one thing, which fits the keys at that moment, and
returns what it did; a check answers from the keys of one moment since it began. What a user of the
keys relies on follows from that alone: `mem_replay`, `nodup_replay`, `accepted` and `rejected`.
-/

namespace AgentLab.Gateway

open Python
open Log (At at_concat)

namespace KeyLog

/-- A command and its argument. -/
inductive Op
  | create (name : Str)
  | revoke (name : Str)
  deriving DecidableEq

/-- What a call does, in one moment. -/
inductive Effect
  | created (e : KeyEntry) (key : Str)
  | revoked (name : Str)
  | refused (exc : Raised KeysError)
  deriving DecidableEq

/-- What a call that did this returns. -/
def Effect.result : Effect → Except (Raised KeysError) (Option Str)
  | .created _ key => .ok (some key)
  | .revoked _ => .ok none
  | .refused exc => .error exc

inductive KeyEvent
  | began (i : ℕ) (op : Op)
  | took (i : ℕ) (effect : Effect)
  | ended (i : ℕ) (result : Except (Raised KeysError) (Option Str))
  | asked (key : Str)
  | answered (key : Str) (result : Except PyExc (Option Str))
  deriving DecidableEq

/-- The entries of the file after an event. -/
def after (entries : List KeyEntry) : KeyEvent → List KeyEntry
  | .took _ (.created e _) => entries ++ [e]
  | .took _ (.revoked name) => entries.filter fun e => e.name ≠ name
  | _ => entries

/-- The entries of the file after a log. -/
def replay (log : List KeyEvent) : List KeyEntry := log.foldl after []

variable (tools : KeyTools)

/-- The effects that a call may have on these entries. -/
def Does (entries : List KeyEntry) (op : Op) : Effect → Prop
  | .created e key => op = .create e.name ∧ e.name ∉ entries.map KeyEntry.name ∧
      encodable key = true ∧ ∃ now h, e = KeyEntry.of tools e.name h key now
  | .revoked name => op = .revoke name ∧ name ∈ entries.map KeyEntry.name
  | .refused exc =>
    match op with
    | .create name => isKeyName name = false ∧ exc = .own (.invalidName name) ∨
        name ∈ entries.map KeyEntry.name ∧ exc = .own (.taken name)
    | .revoke name => name ∉ entries.map KeyEntry.name ∧ exc = .own (.missing name)

/-- The answer of a check that reads these entries. -/
def lookup (entries : List KeyEntry) (key : Str) : Except PyExc (Option Str) :=
  (⟨none, hashesOf entries⟩ : KeyStore Unit).answer tools key

/-- At that time a check began, and it is the last one that did. -/
def LastAsked (log : List KeyEvent) (a : ℕ) (key : Str) : Prop :=
  At log a (.asked key) ∧ ∀ n k, At log n (.asked k) → n ≤ a

/-- What may come next. -/
def Allowed (log : List KeyEvent) : KeyEvent → Prop
  | .began i _ => ∀ op, .began i op ∉ log
  | .took i effect => (∃ op, .began i op ∈ log ∧ Does tools (replay log) op effect) ∧
      (∀ effect', .took i effect' ∉ log) ∧
      ∀ e key, effect = .created e key → ∀ j e', .took j (.created e' key) ∉ log
  | .ended i result => (∃ effect, .took i effect ∈ log ∧ result = effect.result) ∧
      ∀ result', .ended i result' ∉ log
  | .asked _ => True
  | .answered key result => ∃ a m, LastAsked log a key ∧ a < m ∧ m ≤ log.length ∧
      result = lookup tools (replay (log.take m)) key

/-- Each entry of the log was allowed when it was written. -/
abbrev Valid (log : List KeyEvent) : Prop := Log.Valid (Allowed tools) log

variable {tools} {log : List KeyEvent}

/-! ## The file -/

theorem replay_concat (log : List KeyEvent) (ev : KeyEvent) :
    replay (log ++ [ev]) = after (replay log) ev := by
  unfold replay
  rw [List.foldl_append]
  rfl

/-- **What is in the file.** An entry is there exactly if a `create` added it and no `revoke` of its
name did anything later. -/
theorem mem_replay {e : KeyEntry} : e ∈ replay log ↔
    ∃ n i key, At log n (.took i (.created e key)) ∧
      ∀ m j, n < m → ¬ At log m (.took j (.revoked e.name)) := by
  induction log using List.reverseRecOn with
  | nil => exact ⟨nofun, fun ⟨n, i, key, h, _⟩ => nomatch h⟩
  | append_singleton log ev ih =>
    rw [replay_concat]
    have hmem : e ∈ after (replay log) ev ↔
        (∃ i key, ev = .took i (.created e key)) ∨
          e ∈ replay log ∧ ∀ j, ev ≠ .took j (.revoked e.name) := by
      unfold after
      split
      · simp only [List.mem_append, List.mem_singleton, KeyEvent.took.injEq, Effect.created.injEq]
        constructor
        · rintro (h | rfl)
          · exact .inr ⟨h, fun j => by simp⟩
          · exact .inl ⟨_, _, rfl, rfl, rfl⟩
        · rintro (⟨_, _, _, h, _⟩ | h)
          · exact .inr h.symm
          · exact .inl h.1
      · next i name =>
        rw [List.mem_filter]
        constructor
        · intro h
          exact .inr ⟨h.1, fun j hj => by cases hj; simp at h⟩
        · rintro (⟨_, _, h⟩ | h)
          · cases h
          · exact ⟨h.1, decide_eq_true fun hname => h.2 i (hname ▸ rfl)⟩
      · next hcreated hrevoked =>
        constructor
        · exact fun h => .inr ⟨h, fun j => hrevoked j e.name⟩
        · rintro (⟨i, key, h⟩ | h)
          · exact absurd h (hcreated i e key)
          · exact h.1
    rw [hmem, ih]
    constructor
    · rintro (⟨i, key, rfl⟩ | ⟨⟨n, i, key, hn, hlater⟩, hev⟩)
      · refine ⟨log.length, i, key, at_concat.2 (.inr ⟨rfl, rfl⟩), fun m j hm hj => ?_⟩
        rcases at_concat.1 hj with hj | ⟨rfl, -⟩
        · have := hj.lt
          omega
        · omega
      · refine ⟨n, i, key, at_concat.2 (.inl hn), fun m j hm hj => ?_⟩
        rcases at_concat.1 hj with hj | ⟨-, hj⟩
        · exact hlater m j hm hj
        · exact hev j hj.symm
    · rintro ⟨n, i, key, hn, hlater⟩
      rcases at_concat.1 hn with hn | ⟨-, hn⟩
      · refine .inr ⟨⟨n, i, key, hn, fun m j hm hj => ?_⟩, fun j hj => ?_⟩
        · exact hlater m j hm (at_concat.2 (.inl hj))
        · have hlt := hn.lt
          exact hlater log.length j hlt (at_concat.2 (.inr ⟨rfl, hj.symm⟩))
      · exact .inl ⟨i, key, hn.symm⟩

/-- What a log allows is allowed of what came before. -/
theorem Valid.of_concat {ev : KeyEvent} (h : Valid tools (log ++ [ev])) :
    Valid tools log ∧ Allowed tools log ev := by
  have htake := h.take log.length
  have hlast := h log.length ev (at_concat.2 (.inr ⟨rfl, rfl⟩))
  rw [List.take_left] at htake hlast
  exact ⟨htake, hlast⟩

/-- **Names stay unique.** -/
theorem nodup_replay (h : Valid tools log) : ((replay log).map KeyEntry.name).Nodup := by
  induction log using List.reverseRecOn with
  | nil => exact .nil
  | append_singleton log ev ih =>
    obtain ⟨hprior, hev⟩ := h.of_concat
    rw [replay_concat]
    unfold after
    split
    · obtain ⟨⟨op, -, -, hnew, -⟩, -⟩ := hev
      exact nodup_concat (ih hprior) hnew
    · exact (ih hprior).sublist (List.filter_sublist.map _)
    · exact ih hprior

/-! ## The calls -/

/-- A call does one thing. -/
theorem took_once (h : Valid tools log) {i m n : ℕ} {effect effect' : Effect}
    (hm : At log m (.took i effect)) (hn : At log n (.took i effect')) :
    m = n ∧ effect = effect' := by
  have hone := Log.one (P := fun ev => ∃ effect, ev = .took i effect) ?_ hm hn ⟨_, rfl⟩ ⟨_, rfl⟩
  · simpa using hone
  · rintro k ev hk ⟨effect, rfl⟩ ev' hev' ⟨effect', rfl⟩
    exact (h k _ hk).2.1 effect' hev'

/-- A key is made once. -/
theorem key_once (h : Valid tools log) {i j m n : ℕ} {e e' : KeyEntry} {key : Str}
    (hm : At log m (.took i (.created e key))) (hn : At log n (.took j (.created e' key))) :
    m = n ∧ e = e' := by
  have hone := Log.one (P := fun ev => ∃ i e, ev = .took i (.created e key)) ?_ hm hn
    ⟨_, _, rfl⟩ ⟨_, _, rfl⟩
  · exact ⟨hone.1, by simpa using (KeyEvent.took.inj hone.2).2⟩
  · rintro k ev hk ⟨i, e, rfl⟩ ev' hev' ⟨j, e', rfl⟩
    exact (h k _ hk).2.2 e key rfl j e' hev'

/-- An effect is one of the call's command, on the keys of that moment. -/
theorem took_does (h : Valid tools log) {i n : ℕ} {effect : Effect}
    (hn : At log n (.took i effect)) : ∃ t op, t < n ∧ At log t (.began i op) ∧
      Does tools (replay (log.take n)) op effect := by
  obtain ⟨⟨op, hbegan, hdoes⟩, -⟩ := h n _ hn
  obtain ⟨t, ht, hbegan⟩ := Log.mem_take.1 hbegan
  exact ⟨t, op, ht, hbegan, hdoes⟩

/-- A call begins once. -/
theorem began_once (h : Valid tools log) {i m n : ℕ} {op op' : Op}
    (hm : At log m (.began i op)) (hn : At log n (.began i op')) : m = n ∧ op = op' := by
  have hone := Log.one (P := fun ev => ∃ op, ev = .began i op) ?_ hm hn ⟨_, rfl⟩ ⟨_, rfl⟩
  · simpa using hone
  · rintro k ev hk ⟨op, rfl⟩ ev' hev' ⟨op', rfl⟩
    exact h k _ hk op' hev'

/-- **No call is lost.** A call that returned did what it says, once, between its beginning and its
end, to the keys of one moment. -/
theorem ended_took (h : Valid tools log) {i t : ℕ}
    {result : Except (Raised KeysError) (Option Str)} (ht : At log t (.ended i result)) :
    ∃ t₀ n op effect, t₀ < n ∧ n < t ∧ At log t₀ (.began i op) ∧ At log n (.took i effect) ∧
      Does tools (replay (log.take n)) op effect ∧ result = effect.result ∧
      ∀ m effect', At log m (.took i effect') → m = n := by
  obtain ⟨⟨effect, htook, hresult⟩, -⟩ := h t _ ht
  obtain ⟨n, hn, htook⟩ := Log.mem_take.1 htook
  obtain ⟨t₀, op, ht₀, hbegan, hdoes⟩ := took_does h htook
  exact ⟨t₀, n, op, effect, ht₀, hn, hbegan, htook, hdoes, hresult,
    fun m effect' hm => (took_once h hm htook).1⟩

/-! ## The checks -/

/-- The keys of a log. -/
def Used (log : List KeyEvent) (key : Str) : Prop :=
  .asked key ∈ log ∨ ∃ i e, .took i (.created e key) ∈ log

/-- SHA-256 does not collide on the keys of the log. -/
def NoCollision (tools : KeyTools) (log : List KeyEvent) : Prop :=
  ∀ k k', Used log k → Used log k' → tools.sha256 k = tools.sha256 k' → k = k'

theorem hashKey_inj {k k' : Str} (h : hashKey tools k = hashKey tools k') :
    tools.sha256 k = tools.sha256 k' := by
  have hbytes := congrArg fromHex (List.append_cancel_left h)
  rw [fromHex_hex, fromHex_hex] at hbytes
  cases hk : tools.sha256 k
  cases hk' : tools.sha256 k'
  rw [hk, hk'] at hbytes
  simpa using hbytes

/-- The entry that a key is found in is the one that was made for it, and no `revoke` of its name
came since. -/
theorem entry_of_hash (h : Valid tools log) (hsha : NoCollision tools log) {key : Str}
    (hkey : Used log key) {m : ℕ} {e : KeyEntry} (he : e ∈ replay (log.take m))
    (hhash : e.hash = hashKey tools key) :
    ∃ n i, At log n (.took i (.created e key)) ∧
      ∀ k j, n < k → k < m → ¬ At log k (.took j (.revoked e.name)) := by
  obtain ⟨n, i, key', hn, hlater⟩ := mem_replay.1 he
  have hn' := (Log.at_take.1 hn).2
  obtain ⟨-, op, -, -, -, -, -, now, hname, heq⟩ := took_does h hn'
  have hhash' : e.hash = hashKey tools key' := by
    rw [heq]
    rfl
  have hused : Used log key' := .inr ⟨i, e, List.mem_of_getElem? hn'⟩
  have hsame : key' = key := hsha _ _ hused hkey (hashKey_inj (hhash'.symm.trans hhash))
  subst hsame
  exact ⟨n, i, hn', fun k j hnk hkm hk => hlater k j hnk (Log.at_take.2 ⟨hkm, hk⟩)⟩

/-- What a check answers, and when it read the keys. -/
theorem answered_at (h : Valid tools log) {key : Str} {a b : ℕ}
    {result : Except PyExc (Option Str)} (hasked : LastAsked (log.take b) a key)
    (hanswered : At log b (.answered key result)) :
    ∃ m, a < m ∧ m ≤ b ∧ result = lookup tools (replay (log.take m)) key := by
  obtain ⟨a', m, ⟨ha', hlast⟩, ham, hmb, hresult⟩ := h b _ hanswered
  have haa' : a ≤ a' := hlast a key hasked.1
  rw [List.length_take] at hmb
  rw [List.take_take, Nat.min_eq_left (by omega)] at hresult
  exact ⟨m, by omega, by omega, hresult⟩

theorem LastAsked.concat {ev : KeyEvent} {a : ℕ} {key : Str} (h : LastAsked log a key)
    (hev : ∀ k, ev ≠ .asked k) : LastAsked (log ++ [ev]) a key := by
  refine ⟨at_concat.2 (.inl h.1), fun n k hn => ?_⟩
  rcases at_concat.1 hn with hn | ⟨-, hn⟩
  · exact h.2 n k hn
  · exact absurd hn.symm (hev k)

variable (tools) in
theorem lookup_answers (entries : List KeyEntry) {key : Str} (hkey : encodable key = true) :
    ∃ found, lookup tools entries key = .ok found ∧ Answers tools entries key found := by
  refine ⟨_, ?_, findKey_answers tools entries key⟩
  unfold lookup KeyStore.answer
  rw [if_pos hkey]

/-- **A created key is accepted.** A check that starts after `create` returned the key, and ends
before any `revoke` of the name begins, those apart that had returned when the `create` began,
returns the name. -/
theorem accepted (h : Valid tools log) (hsha : NoCollision tools log) {i t₀ t a b : ℕ}
    {name key : Str} {result : Except PyExc (Option Str)}
    (hbegan : At log t₀ (.began i (.create name))) (hended : At log t (.ended i (.ok (some key))))
    (hta : t < a) (hasked : LastAsked (log.take b) a key)
    (hanswered : At log b (.answered key result))
    (hrevokes : ∀ n j, n < b → At log n (.began j (.revoke name)) →
      ∃ m r, m < t₀ ∧ At log m (.ended j r)) : result = .ok (some name) := by
  obtain ⟨t₁, n, op, effect, hlt, hnt, hbegan', htook, hdoes, hresult, -⟩ := ended_took h hended
  obtain ⟨rfl, rfl⟩ := began_once h hbegan hbegan'
  obtain ⟨m, ham, hmb, rfl⟩ := answered_at h hasked hanswered
  cases effect with
  | revoked _ => cases hresult
  | refused _ => cases hresult
  | created e key' =>
    cases hresult
    obtain ⟨hop, -, hkey, -⟩ := hdoes
    cases hop
    have hmem : e ∈ replay (log.take m) := by
      refine mem_replay.2 ⟨n, i, key, Log.at_take.2 ⟨by omega, htook⟩, fun k j hnk hk => ?_⟩
      -- A revoke that took effect since began before the answer, so that it had returned earlier.
      obtain ⟨hkm, hk⟩ := Log.at_take.1 hk
      obtain ⟨k₀, op', hk₀, hbegan'', hdoes'⟩ := took_does h hk
      cases hdoes'.1
      obtain ⟨k₁, r, hk₁, hended'⟩ := hrevokes k₀ j (by omega) hbegan''
      obtain ⟨_, k₂, _, _, -, hk₂, -, htook', -⟩ := ended_took h hended'
      have := (took_once h hk htook').1
      omega
    have hused : Used log key := .inr ⟨i, e, List.mem_of_getElem? htook⟩
    obtain ⟨found, hfound, hanswers⟩ := lookup_answers tools (replay (log.take m)) hkey
    rw [hfound]
    have hhash : e.hash = hashKey tools key := by
      obtain ⟨-, -, -, -, -, -, -, now, hname, heq⟩ := took_does h htook
      rw [heq]
      rfl
    cases found with
    | none => exact absurd hhash (hanswers e hmem)
    | some found =>
      obtain ⟨e', he', rfl, hhash'⟩ := hanswers
      obtain ⟨n', i', hn', -⟩ := entry_of_hash h hsha hused he' hhash'
      rw [(key_once h hn' htook).2]

/-- **A revoked key is never accepted.** A check of a key that starts after `revoke` returned, which
took effect after the key was created under the name, finds nothing. -/
theorem rejected (h : Valid tools log) (hsha : NoCollision tools log) {i j n m t a b : ℕ}
    {e : KeyEntry} {key : Str} {result : Except PyExc (Option Str)}
    (hcreated : At log n (.took i (.created e key))) (hnm : n < m)
    (hrevoked : At log m (.took j (.revoked e.name))) (hended : At log t (.ended j (.ok none)))
    (hta : t < a) (hasked : LastAsked (log.take b) a key)
    (hanswered : At log b (.answered key result)) : result = .ok none := by
  obtain ⟨_, m', _, _, -, hmt, -, htook, -⟩ := ended_took h hended
  obtain ⟨rfl, -⟩ := took_once h hrevoked htook
  obtain ⟨k, hak, -, rfl⟩ := answered_at h hasked hanswered
  obtain ⟨-, -, -, -, -, -, hkey, -⟩ := took_does h hcreated
  obtain ⟨found, hfound, hanswers⟩ := lookup_answers tools (replay (log.take k)) hkey
  rw [hfound]
  cases found with
  | none => rfl
  | some found =>
    obtain ⟨e', he', -, hhash'⟩ := hanswers
    obtain ⟨n', i', hn', hlater⟩ := entry_of_hash h hsha
      (.inr ⟨i, e, List.mem_of_getElem? hcreated⟩) he' hhash'
    obtain ⟨rfl, rfl⟩ := key_once h hn' hcreated
    exact absurd hrevoked (hlater m j hnm (by omega))

end KeyLog

end AgentLab.Gateway
