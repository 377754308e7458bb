import SecretDotenv.Proofs.Machine.CommandRun

/-! What is heard of programs that reply in turn: the commands that were run, and what came
of each. The replies may be any, so what holds of every transcript holds however the
programs behave. -/
namespace SecretDotenv.Machine

/-- The command behind `n` others gets the reply with that number, or does not start. -/
def Programs.inTurn (replies : Nat → Option Reply) : Programs :=
  fun m _ => replies m.calls.length

/-- A command that was run, and the reply if it was started. -/
structure Heard where
  call : Call
  reply : Option Reply

namespace Heard

def output (h : Heard) : Option Output :=
  h.reply.map (·.output)

def aborts (h : Heard) : Bool :=
  h.reply.any (·.aborts)

def Succeeds (h : Heard) (output : Output) : Prop :=
  h.output = some output ∧ output.success

def Reports (h : Heard) (kind : Output → Bool) : Prop :=
  ∃ output, h.output = some output ∧ ¬output.success ∧ kind output

end Heard

/-- What is heard on the way from one machine to another. -/
structure Hears (replies : Nat → Option Reply) (m : Machine) (heard : List Heard) (n : Machine) :
    Prop where
  calls : n.calls = m.calls ++ heard.map (·.call)
  replies : ∀ i h, heard[i]? = some h →
    h.reply = if h.call.started then replies (m.calls.length + i) else none

def heardSince (replies : Nat → Option Reply) (m n : Machine) : List Heard :=
  (n.calls.drop m.calls.length).mapIdx fun i call =>
    { call, reply := if call.started then replies (m.calls.length + i) else none }

variable {replies : Nat → Option Reply} {m n o : Machine} {heard : List Heard}

theorem Hears.quiet (h : n.calls = m.calls) : Hears replies m [] n :=
  ⟨by rw [h, List.map_nil, List.append_nil], by simp⟩

theorem Hears.append {more : List Heard} (hmn : Hears replies m heard n)
    (hno : Hears replies n more o) : Hears replies m (heard ++ more) o := by
  refine ⟨?_, ?_⟩
  · rw [hno.calls, hmn.calls, List.map_append, List.append_assoc]
  · intro i h hi
    by_cases hlt : i < heard.length
    · rw [List.getElem?_append_left hlt] at hi
      exact hmn.replies i h hi
    · have hle := Nat.le_of_not_lt hlt
      rw [List.getElem?_append_right hle] at hi
      rw [hno.replies _ h hi, hmn.calls, List.length_append, List.length_map, Nat.add_assoc,
        Nat.add_sub_cancel' hle]

theorem Hears.single {h : Heard} (hcalls : n.calls = m.calls ++ [h.call])
    (hreply : h.reply = if h.call.started then replies m.calls.length else none) :
    Hears replies m [h] n := by
  refine ⟨hcalls, ?_⟩
  intro i x hx
  obtain ⟨rfl, rfl⟩ : i = 0 ∧ h = x := by simpa using List.getElem?_eq_some_iff.1 hx
  exact hreply

theorem Hears.eq_heardSince (h : Hears replies m heard n) : heardSince replies m n = heard := by
  unfold heardSince
  rw [h.calls, List.drop_left]
  apply List.ext_getElem?
  intro i
  rw [List.getElem?_mapIdx, List.getElem?_map]
  cases hi : heard[i]? with
  | none => rfl
  | some x =>
    rw [Option.map_some, Option.map_some, ← h.replies i x hi]

theorem hears_run {c : Command} {result : Except CommandError Output}
    (h : m.run (.inTurn replies) c none = (result, n)) :
    ∃ heard : Heard, Hears replies m [heard] n ∧ heard.call.command = c ∧
      heard.call.disk = m.disk ∧ n.aborted = (m.aborted || heard.aborts) ∧
      ((∃ error, result = .error error) ∧ heard.output = none ∨
        ∃ output, result = .ok output ∧ heard.output = some output) := by
  rcases run_cases h with ⟨reason, hresult, rfl⟩ | ⟨reply, hreply, rfl, hresult | ⟨_, hlimit, -⟩⟩
  · exact ⟨⟨⟨c, false, m.disk⟩, none⟩, .single rfl rfl, rfl, rfl, (Bool.or_false _).symm,
      Or.inl ⟨⟨_, hresult⟩, rfl⟩⟩
  · exact ⟨⟨⟨c, true, m.disk⟩, some reply⟩, .single rfl hreply.symm, rfl, rfl, rfl,
      Or.inr ⟨_, hresult, rfl⟩⟩
  · contradiction

end SecretDotenv.Machine
