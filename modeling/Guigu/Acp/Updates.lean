import Guigu.Acp.Prompts
import Guigu.Core.Telling

/-! The updates that the client of a session is sent: what it reads off them is the transcript. -/
namespace Guigu.Acp

/-- What a client is to be told of a result. -/
def closing (id : String) (r : ToolResult) : String × String × Json :=
  (id, if r.isError then "failed" else "completed", toolResultToContent r)

end Guigu.Acp

namespace Guigu

end Guigu

namespace Guigu.Acp

end Guigu.Acp

namespace Guigu.AgentSystem

end Guigu.AgentSystem
