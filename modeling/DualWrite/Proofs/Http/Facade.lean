import DualWrite.Proofs.Control.Calls
import DualWrite.Proofs.Json.Record
import DualWrite.Proofs.Store.Holding
import DualWrite.Proofs.Validation.Scene

/-!
# Requests and calls

A request commands one call of the scheduler, reads the status, or is refused. What it commands can
be told from its method, its path and, for the start of an incremental run, its body, without
knowing how requests are served.
-/
namespace DualWrite.Http

/-- A body that gives the two numbers of a start, each of sixty-four bits with a sign. -/
def StartBody (body : List UInt8) (utime interval : Int) : Prop :=
  (∃ ps, Json.document startReader body = .ok ps ∧ ps.lookup "utime" = some utime ∧
    ps.lookup "interval" = some interval) ∧
  (minInt ≤ utime ∧ utime ≤ maxInt) ∧ (minInt ≤ interval ∧ interval ≤ maxInt)

def commandPaths : List (String × ControlPlane.Call) :=
  [("/src_only", .switchTo .srcOnly), ("/src_first", .switchTo .srcFirst),
   ("/dst_first", .switchTo .dstFirst), ("/dst_only", .switchTo .dstOnly),
   ("/full/start", .startFull), ("/full/stop", .stop .full), ("/incr/stop", .stop .incremental)]

namespace Request

/-- A request is for a path with or without a query behind it. -/
def IsFor (r : Request) (path : String) : Prop :=
  r.path = path ∨ ∃ query : String, r.path = path ++ "?" ++ query

def Posts (r : Request) (path : String) : Prop := r.method = "POST" ∧ r.IsFor path

/-- What a request commands. -/
inductive Commands (r : Request) : ControlPlane.Call → Prop
  | plain {path : String} {k : ControlPlane.Call} :
      (path, k) ∈ commandPaths → r.Posts path → r.Commands k
  | startIncremental {utime interval : Int} :
      r.Posts "/incr/start" → isJsonType r.contentType = true → StartBody r.body utime interval →
      r.Commands (.startIncremental utime interval)

theorem IsFor.barePath_eq {r : Request} {path : String} (h : r.IsFor path)
    (hbare : '?' ∉ path.toList) : barePath r.path = path := by
  have hpath : ∀ c ∈ path.toList, decide (c ≠ '?') = true := by
    intro c hc
    exact decide_eq_true fun he => hbare (he ▸ hc)
  obtain ⟨rest, hcut, hrest⟩ :
      ∃ rest, r.path.toList = path.toList ++ rest ∧ rest.takeWhile (· ≠ '?') = [] := by
    rcases h with he | ⟨query, he⟩
    · exact ⟨[], by rw [he, List.append_nil], rfl⟩
    · exact ⟨'?' :: query.toList, by simp [he], by simp⟩
  rw [barePath, hcut, List.takeWhile_append_of_pos hpath, hrest, List.append_nil,
    String.ofList_toList]

end Request

section Written
open Text Json

end Written

theorem bare_of_mem {path : String} {k : ControlPlane.Call} (h : (path, k) ∈ commandPaths) :
    '?' ∉ path.toList := by
  have hbare : ∀ e ∈ commandPaths, '?' ∉ e.1.toList := by decide
  exact hbare _ h

theorem ofPath?_of_mem {path : String} {k : ControlPlane.Call} (h : (path, k) ∈ commandPaths) :
    ∃ call, Resource.ofPath? path = some (.command call) ∧ call ≠ .status ∧ call.call = k := by
  simp only [commandPaths, List.mem_cons, Prod.mk.injEq, List.not_mem_nil, or_false] at h
  rcases h with ⟨rfl, rfl⟩ | ⟨rfl, rfl⟩ | ⟨rfl, rfl⟩ | ⟨rfl, rfl⟩ | ⟨rfl, rfl⟩ |
    ⟨rfl, rfl⟩ | ⟨rfl, rfl⟩ <;>
    exact ⟨_, rfl, nofun, rfl⟩

/-- A command goes through to the call that it commands. -/
theorem route_of_commands {r : Request} {k : ControlPlane.Call} (h : r.Commands k) :
    ∃ call, route r = .ok call ∧ call ≠ .status ∧ call.call = k := by
  cases h with
  | plain hk hposts =>
    obtain ⟨hmethod, hfor⟩ := hposts
    have hpath := hfor.barePath_eq (bare_of_mem hk)
    obtain ⟨call, hplace, hstatus, hcall⟩ := ofPath?_of_mem hk
    exact ⟨call, by simp [route, hpath, hplace, hmethod], hstatus, hcall⟩
  | startIncremental hposts hjson hbody =>
    obtain ⟨hmethod, hfor⟩ := hposts
    have hpath := hfor.barePath_eq (by decide)
    obtain ⟨⟨ps, hps, hutime, hinterval⟩, _⟩ := hbody
    refine ⟨.startIncremental _ _, ?_, nofun, rfl⟩
    simp [route, hpath, Resource.ofPath?, hmethod, startCall, hjson, hps, hutime, hinterval]

def Refusal (a : Response) : Prop := 400 ≤ a.status ∧ a.status < 500

theorem Request.Commands.unique {r : Request} {k k' : ControlPlane.Call} (h : r.Commands k)
    (h' : r.Commands k') : k' = k := by
  obtain ⟨call, hroute, _, rfl⟩ := route_of_commands h
  obtain ⟨call', hroute', _, rfl⟩ := route_of_commands h'
  rw [Except.ok.inj (hroute'.symm.trans hroute)]

section Calls
variable {c : ControlPlane} {call : Call}

end Calls

section Handling
variable {c : ControlPlane} {r : Request} {call : Call} (hroute : route r = .ok call)
    (hstatus : call ≠ .status)
include hroute hstatus

end Handling

end DualWrite.Http
