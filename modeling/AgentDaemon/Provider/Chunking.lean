import AgentDaemon.Provider.Anthropic
import AgentDaemon.Provider.Ollama
import AgentDaemon.Provider.Openai

/-!
The network may cut a response anywhere, also inside a character or a line end. The three
readers of a stream give the same events and the same end for every cut.
-/

namespace AgentDaemon.Provider

variable {cut cut' : List (List UInt8)}

/-- The stream ends after its bytes, or `rest` begins with the error that ends it. -/
theorem parse_cut (h : cut.flatten = cut'.flatten) (rest : List (Except AdapterError (List UInt8)))
    (fromStr : String → Option Openai.StreamChunk) (valueFromStr : String → Option Json)
    {Value : Type} (codec : Ollama.Codec Value) :
    Openai.parseSse fromStr (cut.map .ok ++ rest) = Openai.parseSse fromStr (cut'.map .ok ++ rest) ∧
      Anthropic.parseSse valueFromStr (cut.map .ok ++ rest) =
        Anthropic.parseSse valueFromStr (cut'.map .ok ++ rest) ∧
      Ollama.parseNdjson codec (cut.map .ok ++ rest) =
        Ollama.parseNdjson codec (cut'.map .ok ++ rest) := by
  refine ⟨?_, ?_, ?_⟩
  · rw [Openai.parseSse, Openai.parseSse, ByteLines.read_cut h]
  · rw [Anthropic.parseSse, Anthropic.parseSse, ByteLines.read_cut h]
  · rw [Ollama.parseNdjson, Ollama.parseNdjson, ByteLines.read_cut h]

/-- A character and a line end cut in two. -/
theorem parse_cut_inside : Openai.parseSse (fun _ => none)
      ([[100, 97, 116, 97, 58, 228], [189, 160, 13], [10]].map .ok ++ []) =
        Openai.parseSse (fun _ => none) ([[100, 97, 116, 97, 58, 228, 189, 160, 13, 10]].map .ok ++ []) ∧
    Anthropic.parseSse (fun _ => none)
      ([[100, 97, 116, 97, 58, 228], [189, 160, 13], [10]].map .ok ++ []) =
        Anthropic.parseSse (fun _ => none)
          ([[100, 97, 116, 97, 58, 228, 189, 160, 13, 10]].map .ok ++ []) ∧
    Ollama.parseNdjson (⟨fun _ => none, id⟩ : Ollama.Codec String)
      ([[100, 97, 116, 97, 58, 228], [189, 160, 13], [10]].map .ok ++ []) =
        Ollama.parseNdjson (⟨fun _ => none, id⟩ : Ollama.Codec String)
          ([[100, 97, 116, 97, 58, 228, 189, 160, 13, 10]].map .ok ++ []) :=
  parse_cut (by decide) [] _ _ _

end AgentDaemon.Provider
