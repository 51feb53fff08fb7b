import RenderScript.Programs.ShaderCache

/-!
# Shaders for texture targets

The targets that `getExistingState` and `appendTextures` of driver/rsdShader.cpp take from the
bound textures, over rebindings and uses of one shader.
-/

namespace RenderScript.ShaderCache
open Interleaving List

inductive RsTextureTarget where
  | texture2D
  | textureCube

def GL_TEXTURE_2D : Nat := 0x0DE1

def GL_TEXTURE_CUBE_MAP : Nat := 0x8513

def GL_TEXTURE_EXTERNAL_OES : Nat := 0x8D65

/-- An allocation that is bound is given by its `surfaceTextureID`. -/
def texType : RsTextureTarget → Option UInt32 → Nat
  | .texture2D, some surfaceTextureID =>
    if surfaceTextureID ≠ 0 then GL_TEXTURE_EXTERNAL_OES else GL_TEXTURE_2D
  | .texture2D, none => GL_TEXTURE_2D
  | .textureCube, _ => GL_TEXTURE_CUBE_MAP

structure Textured where
  textureTargets : List RsTextureTarget
  textures : List (Option UInt32)
  shader : RsdShader := {}

namespace Textured

def create (textureTargets : List RsTextureTarget) : Textured where
  textureTargets := textureTargets
  textures := List.replicate textureTargets.length none

def targets (s : Textured) : List Nat := List.zipWith texType s.textureTargets s.textures

inductive Act where
  /-- Another texture in a slot, or another `surfaceTextureID` of the one that is there. -/
  | bind (ct : Nat) (a : Option UInt32)
  | use (gl : Compiling)

def step (s : Textured) : Act → Option Textured
  | .bind ct a => some { s with textures := s.textures.set ct a }
  | .use gl => some { s with shader := (s.shader.getStateBasedShaderID s.targets gl).2 }

def cached (s : Textured) : List (List Nat) := s.shader.mStateBasedShaders.map (·.mTextureTargets)

/-- A use whose targets have a state finds such a state. -/
def Answers (s : Textured) : Act → Prop
  | .bind _ _ => True
  | .use _ => s.targets ∈ s.cached →
      ∃ key ∈ s.shader.mStateBasedShaders, s.shader.getExistingState s.targets = some key ∧
        key.mTextureTargets = s.targets

/-- A use whose targets have a state has those of the latest state. -/
def Latest (s : Textured) : Act → Prop
  | .bind _ _ => True
  | .use _ => s.targets ∈ s.cached → s.cached.getLast? = some s.targets

instance (s : Textured) (act : Act) : Decidable (s.Latest act) :=
  match act with
  | .bind _ _ => .isTrue trivial
  | .use _ => inferInstanceAs (Decidable (_ → _))

/-- The loop does not stop at a match, so that only the last state counts. -/
theorem getExistingState_eq (shader : RsdShader) (targets : List Nat) :
    shader.getExistingState targets = shader.mStateBasedShaders.getLast?.filter (·.mTextureTargets = targets) := by
  rw [RsdShader.getExistingState]
  rcases eq_nil_or_concat shader.mStateBasedShaders with none | ⟨before, key, last⟩
  · rw [none]
    rfl
  · rw [last, concat_eq_append, foldl_concat, List.getLast?_concat]
    simp [Option.filter]

theorem existing_cases (s : Textured) : (∃ key ∈ s.shader.mStateBasedShaders, s.shader.getExistingState s.targets = some key ∧
      key.mTextureTargets = s.targets) ∧ s.cached.getLast? = some s.targets ∨
    s.shader.getExistingState s.targets = none ∧ s.cached.getLast? ≠ some s.targets := by
  rw [getExistingState_eq, cached, List.getLast?_map]
  cases last : s.shader.mStateBasedShaders.getLast? with
  | none => exact .inr ⟨rfl, Option.some_ne_none _ |>.symm⟩
  | some key =>
    by_cases eq : key.mTextureTargets = s.targets
    · refine .inl ⟨⟨key, List.mem_of_getLast? last, ?_, eq⟩, ?_⟩
      · simp [eq]
      · simp [eq]
    · refine .inr ⟨?_, ?_⟩
      · simp [eq]
      · simpa using eq

theorem answers_iff (s : Textured) (act : Act) : s.Answers act ↔ s.Latest act := by
  cases act with
  | bind ct a => exact Iff.rfl
  | use gl =>
    rcases existing_cases s with ⟨found, last⟩ | ⟨missed, other⟩
    · exact ⟨fun _ _ => last, fun _ _ => found⟩
    · constructor
      · intro answers known
        obtain ⟨key, _, found, _⟩ := answers known
        rw [missed] at found
        exact absurd found.symm (Option.some_ne_none key)
      · exact fun latest known => absurd (latest known) other

/-- A use adds a state for its targets unless the latest state has them. -/
theorem cached_use {s next : Textured} {gl : Compiling} (happens : s.step (.use gl) = some next) :
    next.cached = if s.cached.getLast? = some s.targets then s.cached else s.cached ++ [s.targets] := by
  cases happens
  rw [cached, RsdShader.getStateBasedShaderID]
  rcases existing_cases s with ⟨⟨key, _, found, _⟩, last⟩ | ⟨missed, other⟩
  · rw [found, if_pos last]
    rfl
  · rw [missed, if_neg other, cached]
    exact map_append

theorem nodup_next {s next : Textured} {act : Act} (unique : s.cached.Nodup) (latest : s.Latest act)
    (happens : s.step act = some next) : next.cached.Nodup := by
  cases act with
  | bind ct a =>
    cases happens
    exact unique
  | use gl =>
    rw [cached_use happens]
    split
    case isTrue => exact unique
    case isFalse other =>
      have fresh : s.targets ∉ s.cached := fun known => other (latest known)
      exact nodup_append_comm.mp (nodup_cons.mpr ⟨fresh, unique⟩)

theorem latest_of_nodup {s next : Textured} {act : Act} (happens : s.step act = some next)
    (unique : next.cached.Nodup) : s.Latest act := by
  cases act with
  | bind ct a => trivial
  | use gl =>
    intro known
    by_contra other
    rw [cached_use happens, if_neg other, nodup_append_comm] at unique
    exact (nodup_cons.mp unique).1 known

theorem one_state_per_targets_iff (textureTargets : List RsTextureTarget) {acts : List Act} {final : Textured}
    (run : Run step Anyhow (create textureTargets) acts final) :
    Run step Answers (create textureTargets) acts final ∧ Throughout step Anyhow (create textureTargets) (·.cached.Nodup) acts ↔
      Run step Latest (create textureTargets) acts final := by
  have unique : Throughout step Anyhow (create textureTargets) (·.cached.Nodup) acts ↔
      Run step Latest (create textureTargets) acts final :=
    run.throughout_iff_of_invariant (·.cached.Nodup) nodup_nil id nodup_next fun _ => latest_of_nodup
  rw [unique]
  exact ⟨And.right, fun clean => ⟨clean.mono (answers_iff _ _).mpr, clean⟩⟩

/-- The targets of a texture that comes back after another. -/
def rebinding : List Act :=
  [.use ⟨1, true, 0⟩, .bind 0 (some 7), .use ⟨2, true, 0⟩, .bind 0 none, .use ⟨3, true, 0⟩]

theorem one_state_per_targets_two_uses : ∃ final, Run step Answers (create [.texture2D]) (rebinding.take 3) final ∧
      Throughout step Anyhow (create [.texture2D]) (·.cached.Nodup) (rebinding.take 3) := by
  have clean := run_of_perform (rfl : perform step Latest (create [.texture2D]) (rebinding.take 3) = some _)
  exact ⟨_, (one_state_per_targets_iff _ (clean.mono fun _ => trivial)).mpr clean⟩

theorem not_one_state_per_targets : ∃ s final, Run step Anyhow (create [.texture2D]) (rebinding.take 4) s ∧
    ¬ s.Answers (.use ⟨3, true, 0⟩) ∧ s.step (.use ⟨3, true, 0⟩) = some final ∧ ¬ final.cached.Nodup := by
  refine ⟨_, _, run_of_perform rfl, ?_, rfl, by decide⟩
  rw [answers_iff]
  decide

end Textured

end RenderScript.ShaderCache
